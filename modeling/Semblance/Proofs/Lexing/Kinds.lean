import Semblance.Phase
import Semblance.Proofs.Lexing.Locality
import Semblance.Report.Summary

/-!
# The kinds of tokens

The lexer gives tokens of five kinds, and two of them have a fixed stock of values: keyword tokens have the keywords
and punctuation tokens the single punctuation characters (`isLexed_of_mem_tokenize`).  An opening brace is the value of
punctuation only (`eq_brace_of_mem_tokenize`).

A token of some other kind can be made by hand only; the signature and the trace refuse it.  The tokens of a text are
never refused (`mapM_known?_tokenize`).
-/

namespace Semblance

/-- A token that the lexer can give. -/
inductive Token.IsLexed : Token → Prop
  | keyword {value : String} (h : value ∈ keywords) : IsLexed ⟨.keyword, value⟩
  | punctuation {c : Char} (h : c ∈ punctuationMarks.toList) : IsLexed ⟨.punctuation, String.ofList [c]⟩
  | identifier (value : String) : IsLexed ⟨.identifier, value⟩
  | operator (value : String) : IsLexed ⟨.operator, value⟩
  | literal (value : String) : IsLexed ⟨.literal, value⟩

theorem Lexeme.isLexed_of_token? {l : Lexeme} {rest : List Char} (hl : l.IsFirst rest) {t : Token}
    (h : l.token? = some t) : t.IsLexed := by
  obtain ⟨hvalue, hkind⟩ := token?_eq_some_iff.1 h
  obtain ⟨cls, c, s⟩ := l
  obtain ⟨kind, value⟩ := t
  cases hkind with
  | keyword hk => exact .keyword hk
  | identifier => exact .identifier _
  | string | number => exact .literal _
  | operator | other => exact .operator _
  | punctuation =>
    obtain rfl : value = String.ofList (c :: s) := hvalue
    cases hl.takes with
    | punctuation hc => exact .punctuation hc

theorem isLexed_of_mem_tokenize {text : String} {t : Token} (h : t ∈ tokenize text) : t.IsLexed := by
  obtain ⟨l, hl, ht⟩ := List.mem_filterMap.1 h
  obtain ⟨rest, hfirst⟩ := exists_isFirst_of_mem hl
  exact Lexeme.isLexed_of_token? hfirst ht

/-! ### Tokens that are not refused -/

theorem Token.IsLexed.foreignTag?_eq_none {t : Token} (h : t.IsLexed) : t.kind.foreignTag? = none := by
  cases h <;> rfl

theorem mapM_known?_tokenize (text : String) (reason : String → TokenError) :
    (tokenize text).mapM (Token.known? reason) = .ok (tokenize text) :=
  mapM_known? (fun _ ht => (isLexed_of_mem_tokenize ht).foreignTag?_eq_none) reason

/-- The windows of two texts can always be compared. -/
theorem lexical?_tokenize (a b : String) :
    Phase.lexical? (tokenize a) (tokenize b) = .ok (Phase.lexical (tokenize a) (tokenize b)) := by
  simp only [Phase.lexical?, signature?, mapM_known?_tokenize]
  rfl

/-- The tokens of a text can always be traced. -/
theorem traceText?_tokenize (text : String) : traceText? (tokenize text) = .ok (traceText (tokenize text)) := by
  simp only [traceText?, mapM_known?_tokenize]
  rfl

/-! ### Braces -/

/-- A token that is written as an opening brace is one: no rule before that for punctuation takes a brace. -/
theorem eq_brace_of_mem_tokenize {text : String} {t : Token} (h : t ∈ tokenize text) (hvalue : t.value = "\x7b") :
    t = ⟨.punctuation, "\x7b"⟩ := by
  obtain ⟨l, hl, ht⟩ := List.mem_filterMap.1 h
  obtain ⟨rest, hfirst⟩ := exists_isFirst_of_mem hl
  obtain ⟨cls, c, s⟩ := l
  have hchars : String.ofList (c :: s) = "\x7b" := (Lexeme.value_of_token? ht).symm.trans hvalue
  obtain ⟨rfl, rfl⟩ : c = '\x7b' ∧ s = [] := by simpa using congrArg String.toList hchars
  have hrule : Lexeme.rule cls '\x7b' rest = some 0 := Lexeme.rule_eq_some_iff.2 ⟨[], rest, rfl, rfl, hfirst.takes⟩
  cases cls with
  | punctuation => exact (Option.some.inj ht).symm
  | comment | blank => simp [Lexeme.token?] at ht
  | string => simp [Lexeme.rule, Lexeme.string?] at hrule
  | word => simp [Lexeme.rule, Lexeme.word?, Lexeme.isWordStart] at hrule
  | number => simp [Lexeme.rule, Lexeme.number?] at hrule
  | operator =>
    cases hfirst.takes with
    | operator hop => exact absurd hop (by decide)
  | other => exact absurd (.punctuation (by decide)) (hfirst.earlier .punctuation (by decide) ['\x7b'] rest rfl)

end Semblance
