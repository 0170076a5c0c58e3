import Semblance.Text.Quoted

/-!
# Tokens

A token is a piece of source text with its class.  Keywords and punctuation are the *marks* of a program: they stay
when names and literals are changed.  `skeleton` writes the marks of a token list one after the other, and
`controlFlow` lists the keywords that steer execution.
-/

namespace Semblance

/-- The class of a token.  The lexer produces the first five; `foreign` is the class of a token that comes with a
tag of some other name. -/
inductive TokenKind where
  | keyword
  | identifier
  | operator
  | literal
  | punctuation
  | foreign (tag : String)
  deriving DecidableEq, Repr, Inhabited

namespace TokenKind

/-- The tag of a class, as it is shown. -/
def tag : TokenKind → String
  | keyword => "KEYWORD"
  | identifier => "IDENTIFIER"
  | operator => "OPERATOR"
  | literal => "LITERAL"
  | punctuation => "PUNCTUATION"
  | foreign tag => tag

/-- The class with the given tag. -/
def ofTag (tag : String) : TokenKind :=
  if tag = "KEYWORD" then keyword
  else if tag = "IDENTIFIER" then identifier
  else if tag = "OPERATOR" then operator
  else if tag = "LITERAL" then literal
  else if tag = "PUNCTUATION" then punctuation
  else foreign tag

theorem tag_ofTag (tag : String) : (ofTag tag).tag = tag := by
  unfold ofTag
  repeat' split
  all_goals simp_all [TokenKind.tag]

/-- The tag of a class outside the five, if the class is one. -/
def foreignTag? : TokenKind → Option String
  | foreign tag => some tag
  | _ => none

end TokenKind

/-- A classified piece of source text. -/
structure Token where
  kind : TokenKind
  value : String
  deriving DecidableEq, Repr, Inhabited

/-- The words that are keywords. -/
def keywords : List String :=
  ["if", "else", "for", "while", "do", "switch", "case", "default", "break", "continue", "return", "function",
    "class", "extends", "try", "catch", "finally", "throw", "new", "delete", "typeof", "instanceof", "in", "void",
    "const", "let", "var", "import", "export", "async", "await", "yield"]

/-- The keywords that shape the path of execution. -/
def controlKeywords : List String :=
  ["if", "else", "for", "while", "do", "switch", "case", "default", "return", "function", "try", "catch"]

namespace Token

/-- A keyword or a punctuation character. -/
def isMark (t : Token) : Bool :=
  t.kind = .keyword || t.kind = .punctuation

/-- A keyword that shapes the path of execution. -/
def isControl (t : Token) : Bool :=
  t.kind = .keyword && controlKeywords.contains t.value

/-- A name or a keyword. -/
def isWord (t : Token) : Bool :=
  t.kind = .identifier || t.kind = .keyword

end Token

/-- The marks of a token list, written without separators. -/
def skeleton (tokens : List Token) : String :=
  String.join ((tokens.filter Token.isMark).map Token.value)

/-- The control-flow keywords of a token list, in order. -/
def controlFlow (tokens : List Token) : List String :=
  (tokens.filter Token.isControl).map Token.value

/-- Why a token is refused: its class is none of the five. -/
inductive TokenError where
  | unknownKind (tag : String)
  | noTag
  deriving DecidableEq, Repr

/-- What is said about a token that is refused. -/
def TokenError.message : TokenError → String
  | unknownKind tag => "Unhandled token kind: " ++ Text.quoted tag
  | noTag => "'str' object has no attribute 'value'"

/-- Refuses a token whose class is none of the five; `reason` tells how its tag is spoken of. -/
def Token.known? (reason : String → TokenError) (t : Token) : Except TokenError Token :=
  match t.kind.foreignTag? with
  | some tag => .error (reason tag)
  | none => .ok t

theorem Token.known?_of_foreignTag?_eq_none {t : Token} (h : t.kind.foreignTag? = none)
    (reason : String → TokenError) : t.known? reason = .ok t := by
  rw [known?, h]

/-- Tokens of the five classes pass. -/
theorem mapM_known? {tokens : List Token} (h : ∀ t ∈ tokens, t.kind.foreignTag? = none)
    (reason : String → TokenError) : tokens.mapM (Token.known? reason) = .ok tokens := by
  induction tokens with
  | nil => rfl
  | cons t rest ih =>
    obtain ⟨ht, hrest⟩ := List.forall_mem_cons.1 h
    rw [List.mapM_cons, Token.known?_of_foreignTag?_eq_none ht, ih hrest]
    rfl

end Semblance
