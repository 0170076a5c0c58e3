import Semblance.Proofs.Lexing.Cut

/-!
# Solid lexemes

The solid lexemes of a text are those that are not white space.  White space between lexemes can be skipped character
by character (`solidLexemes_cons_of_isBlank`), and the tokens of a text are those of its solid lexemes
(`tokens_eq_filterMap_solid`).
-/

namespace Semblance

open Lexeme Text

/-- The tokens of a list of characters. -/
def tokens (s : List Char) : List Token :=
  (lexemes s).filterMap token?

theorem tokenize_eq_tokens (text : String) : tokenize text = tokens text.toList := rfl

@[simp] theorem tokens_nil : tokens [] = [] := by simp [tokens]

theorem tokens_cons (c : Char) (s : List Char) :
    tokens (c :: s) = (first c s).token?.toList ++ tokens (s.drop (first c s).tail.length) := by
  rw [tokens, lexemes_cons, List.filterMap_cons]
  cases (first c s).token? <;> rfl

/-- The lexemes of a text that are not white space. -/
def solidLexemes (s : List Char) : List Lexeme :=
  (lexemes s).filter (·.cls ≠ .blank)

theorem tokens_eq_filterMap_solid (s : List Char) : tokens s = (solidLexemes s).filterMap token? := by
  rw [tokens, solidLexemes, List.filterMap_filter]
  congr 1
  funext l
  split
  · rfl
  · rename_i hl
    exact token?_eq_none_iff.2 (.inr (by simpa using hl))

@[simp] theorem solidLexemes_nil : solidLexemes [] = [] := by simp [solidLexemes]

/-! ### White space -/

/-- A character between the space and the end of the ASCII range is not white space. -/
private theorem isBlank_eq_false {c : Char} (h : 32 < c.toNat) (h' : c.toNat < 127) : isBlank c = false := by
  simp only [isBlank, Bool.or_eq_false_iff, Bool.and_eq_false_iff, decide_eq_false_iff_not, beq_eq_false_iff_ne]
  omega

namespace Lexeme

theorem isWordPart_of_isWordStart {c : Char} (h : isWordStart c) : isWordPart c := by
  simp only [isWordStart, isWordPart, Char.isAlphanum, Bool.or_eq_true] at h ⊢
  tauto

theorem isWordPart_of_isDigit {c : Char} (h : c.isDigit) : isWordPart c := by
  simp [isWordPart, Char.isAlphanum, h]

theorem isBlank_of_isWordPart {c : Char} (h : isWordPart c) : isBlank c = false := by
  delta isWordPart Char.isAlphanum Char.isAlpha Char.isUpper Char.isLower Char.isDigit at h
  simp only [Bool.or_eq_true, Bool.and_eq_true, decide_eq_true_eq, UInt32.le_iff_toNat_le] at h
  rcases h with (h | rfl) | rfl
  · simp only [Char.toNat_val, Char.reduceToNat] at h
    exact Semblance.isBlank_eq_false (by omega) (by omega)
  · decide
  · decide

theorem isBlank_of_isDigit {c : Char} (h : c.isDigit) : isBlank c = false :=
  isBlank_of_isWordPart (isWordPart_of_isDigit h)

/-- No operator has white space in it. -/
theorem isBlank_of_mem_operator {op : List Char} (hop : op ∈ operators) {c : Char} (hc : c ∈ op) :
    isBlank c = false := by
  have hall : ∀ op ∈ operators, op.all fun c => !isBlank c := by decide
  simpa using List.all_eq_true.1 (hall op hop) c hc

/-- Only the rule for white space and the rule for single characters take white space. -/
theorem Takes.isBlank_eq_false {cls : LexemeClass} {c : Char} {s rest : List Char} (h : Takes cls (c :: s) rest)
    (hb : cls ≠ .blank) (ho : cls ≠ .other) : isBlank c = false := by
  generalize hp : c :: s = piece at h
  cases h with
  | whole hne hd =>
    subst hp
    exact isBlank_of_isWordPart (isWordPart_of_isDigit (hd c (by simp)))
  | decimal hne hd =>
    obtain ⟨d, digits, rfl⟩ := List.exists_cons_of_ne_nil hne
    obtain rfl : c = d := by simpa using congrArg List.head? hp
    exact isBlank_of_isWordPart (isWordPart_of_isDigit (hd c (by simp)))
  | operator hop =>
    subst hp
    exact isBlank_of_mem_operator hop (by simp)
  | punctuation hc =>
    obtain ⟨rfl, -⟩ := List.cons.inj hp
    have hall : punctuationMarks.toList.all fun d => !isBlank d := by decide
    simpa using List.all_eq_true.1 hall c hc
  | word hc =>
    obtain ⟨rfl, -⟩ := List.cons.inj hp
    exact isBlank_of_isWordPart (isWordPart_of_isWordStart hc)
  | quoted hq =>
    obtain ⟨rfl, -⟩ := List.cons.inj hp
    rcases hq with rfl | rfl <;> decide
  | blank => exact absurd rfl hb
  | other => exact absurd rfl ho
  | _ =>
    obtain ⟨rfl, -⟩ := List.cons.inj hp
    decide

/-- White space at the start of a text is one lexeme. -/
theorem first_of_isBlank {c : Char} {s : List Char} (h : isBlank c) :
    first c s = ⟨.blank, c, s.takeWhile isBlank⟩ := by
  obtain ⟨run, rest, rfl, hrun, hin, hout⟩ := exists_run isBlank s
  rw [hrun]
  refine first_of_takes (.blank (by simp) (by simpa using ⟨h, hin⟩) hout) fun cls hcls => ?_
  -- no rule of an earlier turn takes a piece that starts with white space
  refine rule_eq_none_iff.2 fun piece rest' he ht => ?_
  obtain ⟨d, piece, rfl⟩ := List.exists_cons_of_ne_nil ht.ne_nil
  obtain rfl : d = c := by simpa using congrArg List.head? he
  have hd := ht.isBlank_eq_false (by rintro rfl; simp at hcls) (by rintro rfl; simp [LexemeClass.turn] at hcls)
  simp [hd] at h

/-- Only white space starts with a white space character. -/
theorem cls_first_ne_blank {c : Char} (h : isBlank c = false) (s : List Char) : (first c s).cls ≠ .blank := by
  intro hcls
  have := (rule_measure c s).1
  change (measure c s).1 = .blank at hcls
  simp [hcls, rule, blank?, h] at this

end Lexeme

/-- White space in front of a text can be skipped. -/
theorem solidLexemes_dropWhile (s : List Char) : solidLexemes (s.dropWhile isBlank) = solidLexemes s := by
  cases s with
  | nil => rfl
  | cons c s =>
    by_cases h : isBlank c
    · have hdrop : (s.takeWhile isBlank ++ s.dropWhile isBlank).drop (s.takeWhile isBlank).length =
          s.dropWhile isBlank := List.drop_left
      rw [List.takeWhile_append_dropWhile] at hdrop
      rw [List.dropWhile_cons_of_pos h, solidLexemes, solidLexemes, lexemes_cons, first_of_isBlank h,
        List.filter_cons_of_neg (by simp), hdrop]
    · rw [List.dropWhile_cons_of_neg h]

theorem solidLexemes_cons_of_isBlank {c : Char} (h : isBlank c) (s : List Char) :
    solidLexemes (c :: s) = solidLexemes s := by
  rw [← solidLexemes_dropWhile (c :: s), List.dropWhile_cons_of_pos h, solidLexemes_dropWhile]

theorem tokens_cons_of_isBlank {c : Char} (h : isBlank c) (s : List Char) : tokens (c :: s) = tokens s := by
  rw [tokens_eq_filterMap_solid, solidLexemes_cons_of_isBlank h, ← tokens_eq_filterMap_solid]

theorem solidLexemes_cons {c : Char} (h : isBlank c = false) (s : List Char) :
    solidLexemes (c :: s) = first c s :: solidLexemes (s.drop (first c s).tail.length) := by
  rw [solidLexemes, lexemes_cons, List.filter_cons_of_pos (by simpa using cls_first_ne_blank h s), solidLexemes]

/-- Without slashes there are no comments, so a text without tokens is white space. -/
theorem isBlank_of_tokens_eq_nil {s : List Char} (hslash : '/' ∉ s) (h : tokens s = []) : ∀ c ∈ s, isBlank c := by
  induction s with
  | nil => simp
  | cons c s ih =>
    by_cases hc : isBlank c
    · rw [tokens_cons_of_isBlank hc] at h
      exact List.forall_mem_cons.2 ⟨hc, ih (fun hm => hslash (.tail _ hm)) h⟩
    · have hb : isBlank c = false := by simpa using hc
      have hnone : (first c s).token? = none := by
        rw [tokens_cons, List.append_eq_nil_iff] at h
        simpa using h.1
      rcases token?_eq_none_iff.1 hnone with hcls | hcls
      · have hrule := (rule_measure c s).1
        rw [show (measure c s).1 = .comment from hcls] at hrule
        have hne : c ≠ '/' := fun he => hslash (he ▸ .head _)
        simp [rule, comment?, hne] at hrule
      · exact absurd hcls (cls_first_ne_blank hb s)

end Semblance
