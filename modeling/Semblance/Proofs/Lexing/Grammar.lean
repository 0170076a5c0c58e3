import Mathlib.Data.List.Infix
import Mathlib.Data.List.TakeWhile
import Semblance.Token.Lexer

/-!
# The grammar of lexemes

`Takes cls piece rest` says that the rule of the class `cls` takes `piece` from the start of the text `piece ++ rest`.
The relation is written without the scanning functions of the lexer: where a run is the longest one, it says what
may not follow, and where a mark is the first one, it says what may not stand before it.

`Cuts s ls` cuts a text into lexemes so that each is taken by the first rule that takes anything there.

This module also shows that the rules for comments and for strings compute their relations, in both directions
(`comment?_of_takes`, `takes_of_comment?`, `string?_of_takes`, `takes_of_string?`).
-/

namespace Semblance

namespace Lexeme

/-- The inside of a string: characters other than the quote and the backslash, and backslashes each with the one
character that they escape.  Line feeds have to be escaped unless the string may span lines. -/
inductive IsInside (quote : Char) (spans : Bool) : List Char → Prop
  | nil : IsInside quote spans []
  | plain {c : Char} {s : List Char} (hq : c ≠ quote) (hb : c ≠ '\\') (hn : c = '\n' → spans = true)
      (hs : IsInside quote spans s) : IsInside quote spans (c :: s)
  | escaped {c : Char} {s : List Char} (hs : IsInside quote spans s) : IsInside quote spans ('\\' :: c :: s)

/-- A rule takes a piece from the start of a text; `rest` is what follows the piece. -/
inductive Takes : LexemeClass → (piece rest : List Char) → Prop
  | lineComment {line rest : List Char} (hl : '\n' ∉ line) (hr : ∀ c ∈ rest.head?, c = '\n') :
      Takes .comment ('/' :: '/' :: line) rest
  | blockComment {block rest : List Char} (hb : ¬ ['*', '/'] <:+: block ++ ['*']) :
      Takes .comment ('/' :: '*' :: (block ++ ['*', '/'])) rest
  | openComment {block : List Char} (hb : ¬ ['*', '/'] <:+: block) : Takes .comment ('/' :: '*' :: block) []
  | quoted {quote : Char} {s rest : List Char} (hq : quote = '"' ∨ quote = '\'') (hs : IsInside quote false s) :
      Takes .string (quote :: (s ++ [quote])) rest
  | template {s rest : List Char} (hs : IsInside '\x60' true s) : Takes .string ('\x60' :: (s ++ ['\x60'])) rest
  | word {c : Char} {s rest : List Char} (hc : isWordStart c) (hs : ∀ d ∈ s, isWordPart d)
      (hr : ∀ d ∈ rest.head?, ¬ isWordPart d) : Takes .word (c :: s) rest
  | whole {digits rest : List Char} (hne : digits ≠ []) (hd : ∀ d ∈ digits, d.isDigit)
      (hr : ∀ d ∈ rest.head?, ¬ d.isDigit) (hp : ∀ d more, rest = '.' :: d :: more → ¬ d.isDigit) :
      Takes .number digits rest
  | decimal {digits fraction rest : List Char} (hne : digits ≠ []) (hd : ∀ d ∈ digits, d.isDigit)
      (hf : fraction ≠ []) (hfd : ∀ d ∈ fraction, d.isDigit) (hr : ∀ d ∈ rest.head?, ¬ d.isDigit) :
      Takes .number (digits ++ '.' :: fraction) rest
  | operator {op rest : List Char} (hop : op ∈ operators)
      (hmax : ∀ op' ∈ operators, op' <+: op ++ rest → op'.length ≤ op.length) : Takes .operator op rest
  | punctuation {c : Char} {rest : List Char} (hc : c ∈ punctuationMarks.toList) : Takes .punctuation [c] rest
  | blank {run rest : List Char} (hne : run ≠ []) (hb : ∀ d ∈ run, Text.isBlank d)
      (hr : ∀ d ∈ rest.head?, ¬ Text.isBlank d) : Takes .blank run rest
  | other {c : Char} {rest : List Char} : Takes .other [c] rest

/-- The rule of a class, as the lexer computes it. -/
def rule : LexemeClass → Char → List Char → Option Nat
  | .comment => comment?
  | .string => string?
  | .word => word?
  | .number => number?
  | .operator => operator?
  | .punctuation => punctuation?
  | .blank => blank?
  | .other => fun _ _ => some 0

end Lexeme

/-- The turn of a rule: the rules are tried in this order. -/
def LexemeClass.turn : LexemeClass → Nat
  | comment => 1
  | string => 2
  | word => 3
  | number => 4
  | operator => 5
  | punctuation => 6
  | blank => 7
  | other => 8

/-- The kind of the token that a lexeme of a class with the given text gives.  Comments and white space give none. -/
inductive LexemeClass.HasKind : LexemeClass → (value : String) → TokenKind → Prop
  | string {value : String} : HasKind .string value .literal
  | keyword {value : String} (h : value ∈ keywords) : HasKind .word value .keyword
  | identifier {value : String} (h : value ∉ keywords) : HasKind .word value .identifier
  | number {value : String} : HasKind .number value .literal
  | operator {value : String} : HasKind .operator value .operator
  | punctuation {value : String} : HasKind .punctuation value .punctuation
  | other {value : String} : HasKind .other value .operator

namespace Lexeme

/-- A lexeme is taken from the start of a text, and no rule whose turn is earlier takes anything there. -/
structure IsFirst (l : Lexeme) (rest : List Char) : Prop where
  takes : Takes l.cls l.chars rest
  earlier : ∀ cls : LexemeClass, cls.turn < l.cls.turn → ∀ piece rest' : List Char,
    piece ++ rest' = l.chars ++ rest → ¬ Takes cls piece rest'

end Lexeme

/-- A text is cut into lexemes, each of which is the first at its place. -/
inductive Cuts : List Char → List Lexeme → Prop
  | nil : Cuts [] []
  | cons {l : Lexeme} {rest : List Char} {ls : List Lexeme} (hl : l.IsFirst rest) (hr : Cuts rest ls) :
      Cuts (l.chars ++ rest) (l :: ls)

namespace Lexeme

theorem Takes.ne_nil {cls : LexemeClass} {piece rest : List Char} (h : Takes cls piece rest) : piece ≠ [] := by
  cases h with
  | whole hne => exact hne
  | blank hne => exact hne
  | operator hop =>
    rintro rfl
    exact absurd hop (by decide)
  | _ => simp

/-! ### Runs -/

/-- A run is the longest one if the next character is none of its kind. -/
theorem takeWhile_append_of_head? {p : Char → Bool} {run rest : List Char} (h : ∀ c ∈ run, p c)
    (hr : ∀ c ∈ rest.head?, ¬ p c) : (run ++ rest).takeWhile p = run := by
  rw [List.takeWhile_append_of_pos h]
  cases rest with
  | nil => simp
  | cons c rest =>
    have : ¬ p c := hr c (by simp)
    simp [this]

/-- Every text starts with a longest run. -/
theorem exists_run (p : Char → Bool) (s : List Char) :
    ∃ run rest, s = run ++ rest ∧ s.takeWhile p = run ∧ (∀ c ∈ run, p c) ∧ ∀ c ∈ rest.head?, ¬ p c := by
  refine ⟨s.takeWhile p, s.dropWhile p, List.takeWhile_append_dropWhile.symm, rfl,
    fun c hc => List.mem_takeWhile_imp hc, ?_⟩
  intro c hc
  have := List.head?_dropWhile_not p s
  rw [Option.mem_def] at hc
  simpa [hc] using this

/-! ### Comments -/

theorem infix_cons_iff_of_close {c : Char} {s : List Char} :
    ['*', '/'] <:+: c :: s ↔ (c = '*' ∧ s.head? = some '/') ∨ ['*', '/'] <:+: s := by
  rw [List.infix_cons_iff]
  cases s with
  | nil => simp
  | cons d s => simp [List.cons_prefix_cons, @eq_comm _ '*' c, @eq_comm _ '/' d]

/-- A block comment with a closing mark runs through the first one. -/
theorem blockLength_append (n : Nat) {block rest : List Char} (h : ¬ ['*', '/'] <:+: block ++ ['*']) :
    blockLength n (block ++ '*' :: '/' :: rest) = n + block.length + 2 := by
  induction block generalizing n with
  | nil => simp [blockLength]
  | cons c block ih =>
    rw [List.cons_append, infix_cons_iff_of_close, not_or] at h
    have hstep : blockLength n (c :: (block ++ '*' :: '/' :: rest)) =
        blockLength (n + 1) (block ++ '*' :: '/' :: rest) := by
      rw [blockLength]
      rintro more rfl hm
      apply h.1
      cases block with
      | nil => simp at hm
      | cons d block => simp_all
    rw [List.cons_append, hstep, ih (n + 1) h.2, List.length_cons]
    omega

/-- A block comment without a closing mark runs to the end of the text. -/
theorem blockLength_of_unclosed (n : Nat) {block : List Char} (h : ¬ ['*', '/'] <:+: block) :
    blockLength n block = n + block.length := by
  induction block generalizing n with
  | nil => rfl
  | cons c block ih =>
    rw [infix_cons_iff_of_close, not_or] at h
    have hstep : blockLength n (c :: block) = blockLength (n + 1) block := by
      rw [blockLength]
      rintro more rfl rfl
      exact h.1 (by simp)
    rw [hstep, ih (n + 1) h.2, List.length_cons]
    omega

/-- A text has a first closing mark or none. -/
theorem exists_close_or_unclosed (s : List Char) :
    (∃ block rest, s = block ++ '*' :: '/' :: rest ∧ ¬ ['*', '/'] <:+: block ++ ['*']) ∨ ¬ ['*', '/'] <:+: s := by
  induction s with
  | nil => right; simp
  | cons c s ih =>
    by_cases hc : c = '*' ∧ s.head? = some '/'
    · obtain ⟨rfl, hs⟩ := hc
      obtain ⟨rest, rfl⟩ := List.head?_eq_some_iff.1 hs
      exact .inl ⟨[], rest, rfl, by decide⟩
    · rcases ih with ⟨block, rest, rfl, hb⟩ | hs
      · refine .inl ⟨c :: block, rest, rfl, ?_⟩
        rw [List.cons_append, infix_cons_iff_of_close, not_or]
        refine ⟨?_, hb⟩
        rintro ⟨rfl, hh⟩
        apply hc
        cases block <;> simp_all
      · right
        rw [infix_cons_iff_of_close, not_or]
        exact ⟨hc, hs⟩

theorem comment?_of_takes {c : Char} {s rest : List Char} (h : Takes .comment (c :: s) rest) :
    comment? c (s ++ rest) = some s.length := by
  cases h with
  | @lineComment line _ hl hr =>
    have hrun : (line ++ rest).takeWhile (· ≠ '\n') = line := by
      apply takeWhile_append_of_head?
      · intro d hd
        simpa using fun hn : d = '\n' => hl (hn ▸ hd)
      · intro d hd
        simpa using hr d hd
    simp only [comment?, List.cons_append, hrun, ↓reduceIte, List.length_cons]
    rw [Nat.add_comm]
  | @blockComment block _ hb =>
    have hlen : blockLength 0 (block ++ '*' :: '/' :: rest) = 0 + block.length + 2 := blockLength_append 0 hb
    simp only [comment?, List.cons_append, List.append_assoc, List.nil_append, ↓reduceIte, hlen, List.length_cons,
      List.length_append, List.length_nil]
    congr 1
    omega
  | @openComment block hb =>
    have hlen := blockLength_of_unclosed 0 hb
    simp only [comment?, List.append_nil, ↓reduceIte, hlen, List.length_cons]
    congr 1
    omega

theorem takes_of_comment? {c : Char} {s : List Char} {n : Nat} (h : comment? c s = some n) :
    ∃ t rest, s = t ++ rest ∧ t.length = n ∧ Takes .comment (c :: t) rest := by
  unfold comment? at h
  split at h
  · rename_i hc
    subst hc
    split at h
    · rename_i line
      obtain ⟨run, rest, rfl, hrun, hin, hout⟩ := exists_run (· ≠ '\n') line
      rw [hrun] at h
      refine ⟨'/' :: run, rest, rfl, by simp at h ⊢; omega, .lineComment ?_ ?_⟩
      · exact fun hn => by simpa using hin _ hn
      · exact fun d hd => by simpa using hout d hd
    · rename_i block
      rcases exists_close_or_unclosed block with ⟨inner, rest, rfl, hb⟩ | hb
      · rw [blockLength_append 0 hb] at h
        refine ⟨'*' :: (inner ++ ['*', '/']), rest, by simp, by simp at h ⊢; omega, .blockComment hb⟩
      · rw [blockLength_of_unclosed 0 hb] at h
        refine ⟨'*' :: block, [], by simp, by simp at h ⊢; omega, .openComment hb⟩
    · simp at h
  · simp at h

/-! ### Strings -/

theorem closing?_cons {quote c : Char} (hc : c ≠ '\\') (spans : Bool) (n : Nat) (s : List Char) :
    closing? quote spans n (c :: s) =
      if c = quote then some (n + 1)
      else if c = '\n' && !spans then none
      else closing? quote spans (n + 1) s := by
  rw [closing?] <;> simp [hc]

/-- The search for the closing quote passes over the inside of the string. -/
theorem closing?_append {quote : Char} {spans : Bool} (hq : quote ≠ '\\') {s : List Char}
    (h : IsInside quote spans s) (n : Nat) (rest : List Char) :
    closing? quote spans n (s ++ quote :: rest) = some (n + s.length + 1) := by
  induction h generalizing n with
  | nil => rw [List.nil_append, closing?_cons hq, if_pos rfl, List.length_nil]
  | @plain c s hc hb hn hs ih =>
    rw [List.cons_append, closing?_cons hb, if_neg hc, if_neg (by simpa using hn), ih (n + 1), List.length_cons]
    congr 1
    omega
  | escaped hs ih =>
    rw [List.cons_append, List.cons_append, closing?, ih (n + 2), List.length_cons, List.length_cons]
    congr 1
    omega

/-- A character that the first equations of the search leave over is no backslash. -/
theorem ne_backslash {c : Char} {s : List Char} (hb : c = '\\' → s = [] → False)
    (he : ∀ d t, c = '\\' → s = d :: t → False) : c ≠ '\\' := by
  rintro rfl
  cases s with
  | nil => exact hb rfl rfl
  | cons d t => exact he d t rfl rfl

/-- A search that succeeds has passed over the inside of a string. -/
theorem exists_of_closing? {quote : Char} {spans : Bool} {n m : Nat} {s : List Char}
    (h : closing? quote spans n s = some m) :
    ∃ inner rest, s = inner ++ quote :: rest ∧ m = n + inner.length + 1 ∧ IsInside quote spans inner := by
  fun_induction closing? quote spans n s with
  | case1 => simp at h
  | case2 => simp at h
  | case3 n c s ih =>
    obtain ⟨inner, rest, rfl, rfl, hi⟩ := ih h
    exact ⟨'\\' :: c :: inner, rest, rfl, by simp; omega, .escaped hi⟩
  | case4 n s hb he => exact ⟨[], s, rfl, by simpa using h.symm, .nil⟩
  | case5 => simp at h
  | case6 n c s hb he hc hn ih =>
    obtain ⟨inner, rest, rfl, rfl, hi⟩ := ih h
    exact ⟨c :: inner, rest, rfl, by simp; omega, .plain hc (ne_backslash hb he) (by simpa using hn) hi⟩

theorem string?_of_takes {c : Char} {s rest : List Char} (h : Takes .string (c :: s) rest) :
    string? c (s ++ rest) = some s.length := by
  cases h with
  | @quoted _ inner _ hq hs =>
    have hb : c ≠ '\\' := by rcases hq with rfl | rfl <;> decide
    have hlen := closing?_append hb hs 0 rest
    rw [string?, if_pos (by simpa using hq), List.append_assoc, List.singleton_append, hlen]
    simp
  | @template inner _ hs =>
    have hlen := closing?_append (by decide) hs 0 rest
    rw [string?, if_neg (by decide), if_pos rfl, List.append_assoc, List.singleton_append, hlen]
    simp

theorem takes_of_string? {c : Char} {s : List Char} {n : Nat} (h : string? c s = some n) :
    ∃ t rest, s = t ++ rest ∧ t.length = n ∧ Takes .string (c :: t) rest := by
  unfold string? at h
  split at h
  · rename_i hc
    obtain ⟨inner, rest, rfl, rfl, hi⟩ := exists_of_closing? h
    exact ⟨inner ++ [c], rest, by simp, by simp, .quoted (by simpa using hc) hi⟩
  · split at h
    · rename_i hc
      subst hc
      obtain ⟨inner, rest, rfl, rfl, hi⟩ := exists_of_closing? h
      exact ⟨inner ++ ['\x60'], rest, by simp, by simp, .template hi⟩
    · simp at h

end Lexeme

end Semblance
