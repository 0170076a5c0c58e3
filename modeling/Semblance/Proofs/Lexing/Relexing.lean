import Semblance.Proofs.Lexing.Locality

/-!
# Lexing token values again

A lexeme is the first one at its place by what it is, not by what follows it: it is the first also where nothing
follows (`IsFirst.alone`).  A line feed after it changes nothing unless it is open, so the values of tokens, each on
a line of its own, are lexed to the same tokens again (`tokenize_intercalate_values`).
-/

namespace Semblance

open Lexeme Text

namespace Lexeme

/-! ### Lexemes by themselves -/

/-- A piece that is taken somewhere is taken at the end of a text. -/
theorem Takes.alone {cls : LexemeClass} {piece rest : List Char} (h : Takes cls piece rest) : Takes cls piece [] := by
  cases h with
  | lineComment hl => exact .lineComment hl (by simp)
  | blockComment hb => exact .blockComment hb
  | openComment hb => exact .openComment hb
  | quoted hq hs => exact .quoted hq hs
  | template hs => exact .template hs
  | word hc hs => exact .word hc hs (by simp)
  | whole hne hd => exact .whole hne hd (by simp) (by simp)
  | decimal hne hd hf hfd => exact .decimal hne hd hf hfd (by simp)
  | operator hop hmax =>
    refine .operator hop fun op' hop' hpre => hmax op' hop' ?_
    rw [List.append_nil] at hpre
    exact hpre.trans (List.prefix_append _ _)
  | punctuation hc => exact .punctuation hc
  | blank hne hb => exact .blank hne hb (by simp)
  | other => exact .other

/-- A rule that takes nothing from a text takes nothing from the start of it. -/
theorem rule_eq_none_of_append {cls : LexemeClass} {c : Char} {s more : List Char} (h : rule cls c (s ++ more) = none) :
    rule cls c s = none := by
  cases cls with
  | comment =>
    refine comment?_eq_none_iff.2 fun hc => ?_
    have hs := comment?_eq_none_iff.1 h hc
    cases s with
    | nil => simp
    | cons d s => exact hs
  | string =>
    refine rule_eq_none_iff.2 fun piece rest he ht => rule_eq_none_iff.1 h piece (rest ++ more) ?_ ?_
    · rw [← List.append_assoc, he, List.cons_append]
    · cases ht with
      | quoted hq hs => exact .quoted hq hs
      | template hs => exact .template hs
  | word =>
    have hc : ¬ isWordStart c := fun hc => by simp [rule, word?, hc] at h
    simp [rule, word?, hc]
  | number => exact number?_eq_none_iff.2 (number?_eq_none_iff.1 h)
  | operator =>
    refine operator?_eq_none_iff.2 fun op hop hpre => operator?_eq_none_iff.1 h op hop ?_
    exact hpre.trans (List.prefix_append (c :: s) more)
  | punctuation => exact h
  | blank =>
    have hc : ¬ isBlank c := fun hc => by simp [rule, blank?, hc] at h
    simp [rule, blank?, hc]
  | other => exact h

/-- The first lexeme at a place is the first lexeme of its own text. -/
theorem IsFirst.alone {l : Lexeme} {rest : List Char} (h : l.IsFirst rest) : l.IsFirst [] := by
  refine ⟨h.takes.alone, fun cls hcls piece rest' he => ?_⟩
  rw [List.append_nil] at he
  have hnone : rule cls l.head (l.tail ++ rest) = none := rule_eq_none_iff.2 fun p r hp => h.earlier cls hcls p r hp
  exact rule_eq_none_iff.1 (rule_eq_none_of_append hnone) piece rest' he

theorem IsFirst.first_eq {l : Lexeme} {rest : List Char} (h : l.IsFirst rest) : first l.head l.tail = l := by
  have heq := h.alone.eq_first
  rw [List.append_nil] at heq
  exact heq.symm

/-! ### Lexemes on lines of their own -/

/-- A single or double quote before a line feed starts no string. -/
theorem string?_newline {c : Char} (hc : c ≠ '\x60') (b : List Char) : string? c ('\n' :: b) = none := by
  unfold string?
  rw [if_neg hc]
  split
  · rename_i hq
    have hne : '\n' ≠ c := by
      rintro rfl
      simp at hq
    rw [closing?_cons (by decide), if_neg hne, if_pos (by simp)]
  · rfl

/-- A line feed after a lexeme that gives a token changes nothing, unless it is a back quote without a partner. -/
theorem IsFirst.first_newline {l : Lexeme} {rest : List Char} (h : l.IsFirst rest) {t : Token} (ht : l.token? = some t)
    (hq : t ≠ ⟨.operator, "\x60"⟩) (b : List Char) : first l.head (l.tail ++ '\n' :: b) = l := by
  have halone := h.first_eq
  have hcls : l.cls ≠ .comment ∧ l.cls ≠ .blank := by
    rw [← not_or, ← token?_eq_none_iff, ht]
    simp
  have hblank : isBlank l.head = false := by
    by_contra hb
    have hl := first_of_isBlank (s := l.tail) (by simpa using hb)
    rw [halone] at hl
    exact hcls.2 (hl ▸ rfl)
  have hnewline : ∀ d ∈ ('\n' :: b).head?, isBlank d := by simp; decide
  conv_rhs => rw [← halone]
  refine first_append hblank hnewline (fun hnone => ?_) fun hcomment => absurd (halone ▸ hcomment) hcls.1
  by_cases hquote : l.head ∈ quotes
  · -- a quote that starts no string is a lexeme by itself
    have hl := first_of_unclosed hquote hnone
    rw [halone] at hl
    have hback : l.head ≠ '\x60' := by
      intro hhead
      have hother := (token?_eq_backtick_iff h).2 ⟨hl ▸ rfl, hhead⟩
      exact hq (Option.some.inj (ht.symm.trans hother))
    rw [show l.tail = [] from hl ▸ rfl]
    exact string?_newline hback b
  · simp only [quotes, List.mem_cons, List.not_mem_nil, not_or] at hquote
    simp [string?, hquote]

theorem IsFirst.tokens_chars {l : Lexeme} {rest : List Char} (h : l.IsFirst rest) :
    tokens l.chars = l.token?.toList := by
  rw [chars, tokens_cons, h.first_eq, List.drop_length, tokens_nil, List.append_nil]

theorem IsFirst.tokens_newline {l : Lexeme} {rest : List Char} (h : l.IsFirst rest) {t : Token} (ht : l.token? = some t)
    (hq : t ≠ ⟨.operator, "\x60"⟩) (b : List Char) : tokens (l.chars ++ '\n' :: b) = t :: tokens b := by
  rw [chars, List.cons_append, tokens_cons, h.first_newline ht hq, List.drop_left, ht,
    tokens_cons_of_isBlank (by decide)]
  rfl

end Lexeme

/-! ### The values of tokens -/

/-- Values of tokens on lines of their own are lexed to these tokens. -/
theorem tokenize_intercalate {ts : List Token}
    (h : ∀ t ∈ ts, ∃ (l : Lexeme) (rest : List Char), l.IsFirst rest ∧ l.token? = some t)
    (hq : (⟨.operator, "\x60"⟩ : Token) ∉ ts) : tokenize ("\n".intercalate (ts.map Token.value)) = ts := by
  rw [tokenize_eq_tokens]
  induction ts with
  | nil => simp
  | cons t ts ih =>
    obtain ⟨l, rest, hl, ht⟩ := h t (by simp)
    have hvalue : t.value.toList = l.chars := by rw [Lexeme.value_of_token? ht, String.toList_ofList]
    obtain ⟨hne, hq⟩ : _ ≠ t ∧ _ ∉ ts := by simpa using hq
    cases ts with
    | nil =>
      rw [List.map_singleton, String.intercalate_singleton, hvalue, hl.tokens_chars, ht]
      rfl
    | cons u ts =>
      rw [List.map_cons, String.intercalate_cons_of_ne_nil (by simp), String.toList_append, String.toList_append,
        hvalue, List.append_assoc]
      exact (hl.tokens_newline ht (Ne.symm hne) _).trans (congrArg _ (ih (fun u hu => h u (.tail _ hu)) hq))

/-- The values of the tokens of a text, each on a line of its own, have the same tokens, if no back quote is without
a partner. -/
theorem tokenize_intercalate_values {text : String} (h : (⟨.operator, "\x60"⟩ : Token) ∉ tokenize text) :
    tokenize ("\n".intercalate ((tokenize text).map Token.value)) = tokenize text := by
  refine tokenize_intercalate (fun t ht => ?_) h
  obtain ⟨l, hl, htoken⟩ := List.mem_filterMap.1 ht
  obtain ⟨rest, hfirst⟩ := exists_isFirst_of_mem hl
  exact ⟨l, rest, hfirst, htoken⟩

/-- Quotes without partners, a backslash at the end of a line and a template of two lines. -/
theorem tokenize_intercalate_values_quotes :
    let text := "don't\n/'a\\\n'/ \x60x\ny\x60>>>= 1.\\\n\"/*;"
    (⟨.operator, "\x60"⟩ : Token) ∉ tokenize text ∧ (tokenize text).length = 12 ∧
      tokenize ("\n".intercalate ((tokenize text).map Token.value)) = tokenize text := by
  intro text
  refine ⟨by decide +kernel, by decide +kernel, ?_⟩
  exact tokenize_intercalate_values (by decide +kernel)

end Semblance
