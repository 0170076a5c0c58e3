import Semblance.Text.Blank
import Semblance.Token

/-!
# The lexer

A text is cut into lexemes: at each place the first of eight rules that applies takes its lexeme, so nothing of the
text is lost (`flatMap_chars_lexemes`).  A rule looks at the first character and at what follows it, and says how many
of the following characters belong to its lexeme; every lexeme therefore has at least one character.  Comments and
white space give no token, a character that no other rule knows gives an operator.
-/

namespace Semblance

/-- The rule by which a lexeme was taken. -/
inductive LexemeClass where
  | comment
  | string
  | word
  | number
  | operator
  | punctuation
  | blank
  | other
  deriving DecidableEq, Repr

/-- A piece of text that was taken by one rule. -/
structure Lexeme where
  cls : LexemeClass
  head : Char
  tail : List Char
  deriving DecidableEq, Repr

/-- The operators of more than one character. -/
def compoundOperators : List String :=
  [">>>=", "===", "!==", "**=", "<<=", ">>=", ">>>", "&&=", "||=", "??=", "==", "!=", "<=", ">=", "&&", "||", "??",
    "?.", "=>", "++", "--", "+=", "-=", "*=", "/=", "%=", "&=", "|=", "^=", "**", "<<", ">>"]

/-- The characters that are operators by themselves. -/
def simpleOperators : String := "+-*/%=<>!&|^~?:"

/-- The punctuation characters. -/
def punctuationMarks : String := "\x7b\x7d()[],.;"

namespace Lexeme

/-- All operators, longer ones first. -/
def operators : List (List Char) :=
  (compoundOperators.map String.toList) ++ simpleOperators.toList.map ([·])

def isWordStart (c : Char) : Bool :=
  c.isAlpha || c = '_' || c = '$'

def isWordPart (c : Char) : Bool :=
  c.isAlphanum || c = '_' || c = '$'

/-- The length of a block comment's remainder: through the first closing mark, or to the end of the text. -/
def blockLength (n : Nat) : List Char → Nat
  | [] => n
  | '*' :: '/' :: _ => n + 2
  | _ :: rest => blockLength (n + 1) rest

/-- A comment runs to the end of its line, or through its closing mark. -/
def comment? (c : Char) (rest : List Char) : Option Nat :=
  if c = '/' then
    match rest with
    | '/' :: line => some (1 + (line.takeWhile (· ≠ '\n')).length)
    | '*' :: block => some (1 + blockLength 0 block)
    | _ => none
  else none

/-- The number of characters through the first `quote` that no backslash escapes, if there is one.  A line feed
that is not escaped ends the search unless the string may span lines. -/
def closing? (quote : Char) (spans : Bool) (n : Nat) : List Char → Option Nat
  | [] => none
  | ['\\'] => none
  | '\\' :: _ :: rest => closing? quote spans (n + 2) rest
  | c :: rest =>
    if c = quote then some (n + 1)
    else if c = '\n' && !spans then none
    else closing? quote spans (n + 1) rest

/-- A string runs to its closing quote; only a string in back quotes may span lines. -/
def string? (c : Char) (rest : List Char) : Option Nat :=
  if c = '"' || c = '\'' then closing? c false 0 rest
  else if c = '\x60' then closing? c true 0 rest
  else none

/-- A word is the longest run of letters, digits, underscores and dollar signs that starts with no digit. -/
def word? (c : Char) (rest : List Char) : Option Nat :=
  if isWordStart c then some (rest.takeWhile isWordPart).length else none

/-- A number is a run of digits, with a point and a second run where a digit follows the point. -/
def number? (c : Char) (rest : List Char) : Option Nat :=
  if c.isDigit then
    let whole := (rest.takeWhile Char.isDigit).length
    match rest.drop whole with
    | '.' :: d :: more =>
      if d.isDigit then some (whole + 2 + (more.takeWhile Char.isDigit).length) else some whole
    | _ => some whole
  else none

/-- An operator is the longest one of the table that the text starts with. -/
def operator? (c : Char) (rest : List Char) : Option Nat :=
  (operators.find? (·.isPrefixOf (c :: rest))).map fun op => op.length - 1

def punctuation? (c : Char) (_ : List Char) : Option Nat :=
  if punctuationMarks.toList.contains c then some 0 else none

/-- White space is taken as one run. -/
def blank? (c : Char) (rest : List Char) : Option Nat :=
  if Text.isBlank c then some (rest.takeWhile Text.isBlank).length else none

/-- The rules in the order in which they are tried. -/
def rules : List (LexemeClass × (Char → List Char → Option Nat)) :=
  [(.comment, comment?), (.string, string?), (.word, word?), (.number, number?), (.operator, operator?),
    (.punctuation, punctuation?), (.blank, blank?)]

/-- The class of the lexeme at the start of a text, and how many characters follow its first. -/
def measure (c : Char) (rest : List Char) : LexemeClass × Nat :=
  (rules.findSome? fun (cls, rule) => (rule c rest).map fun n => (cls, n)).getD (.other, 0)

/-- The lexeme at the start of a text. -/
def first (c : Char) (rest : List Char) : Lexeme :=
  let (cls, n) := measure c rest
  ⟨cls, c, rest.take n⟩

/-- The characters of a lexeme. -/
def chars (l : Lexeme) : List Char :=
  l.head :: l.tail

/-- The token that a lexeme gives: none for comments and white space. -/
def token? (l : Lexeme) : Option Token :=
  let value := String.ofList l.chars
  match l.cls with
  | .comment | .blank => none
  | .word => some ⟨if keywords.contains value then .keyword else .identifier, value⟩
  | .string | .number => some ⟨.literal, value⟩
  | .punctuation => some ⟨.punctuation, value⟩
  | .operator | .other => some ⟨.operator, value⟩

end Lexeme

/-- The lexemes of a text, after the lexemes `done` (reversed). -/
def lexemesFrom (done : List Lexeme) : List Char → List Lexeme
  | [] => done.reverse
  | c :: rest =>
    let l := Lexeme.first c rest
    lexemesFrom (l :: done) (rest.drop l.tail.length)
  termination_by s => s.length

/-- The lexemes of a text. -/
def lexemes (s : List Char) : List Lexeme :=
  lexemesFrom [] s

/-- The tokens of a text. -/
def tokenize (text : String) : List Token :=
  (lexemes text.toList).filterMap Lexeme.token?

theorem Lexeme.chars_first_append (c : Char) (rest : List Char) :
    (first c rest).chars ++ rest.drop (first c rest).tail.length = c :: rest := by
  simp only [chars, first, List.length_take, List.cons_append]
  congr 1
  have h : rest.drop (min (measure c rest).2 rest.length) = rest.drop (measure c rest).2 := by
    rcases Nat.le_total (measure c rest).2 rest.length with h | h
    · rw [Nat.min_eq_left h]
    · rw [Nat.min_eq_right h, List.drop_eq_nil_of_le (Nat.le_refl _), List.drop_eq_nil_of_le h]
  rw [h, List.take_append_drop]

theorem lexemesFrom_eq (done : List Lexeme) : (s : List Char) → lexemesFrom done s = done.reverse ++ lexemes s
  | [] => by simp [lexemes, lexemesFrom]
  | c :: rest => by
    rw [lexemes, lexemesFrom, lexemesFrom, lexemesFrom_eq, lexemesFrom_eq [Lexeme.first c rest]]
    simp
  termination_by s => s.length

@[simp] theorem lexemes_nil : lexemes [] = [] := by simp [lexemes, lexemesFrom]

theorem lexemes_cons (c : Char) (rest : List Char) :
    lexemes (c :: rest) =
      Lexeme.first c rest :: lexemes (rest.drop (Lexeme.first c rest).tail.length) := by
  rw [lexemes, lexemesFrom, lexemesFrom_eq]
  simp

/-- Nothing of a text is lost. -/
theorem flatMap_chars_lexemes : (s : List Char) → (lexemes s).flatMap Lexeme.chars = s
  | [] => by simp
  | c :: rest => by
    rw [lexemes_cons, List.flatMap_cons, flatMap_chars_lexemes, Lexeme.chars_first_append]
  termination_by s => s.length

end Semblance
