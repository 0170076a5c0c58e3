import Mathlib.Data.List.Infix
import Semblance.Proofs.Lexing.Grammar
import Semblance.Submission.Anomaly

/-!
# Counting comment lines

The counter of comment lines goes through the lines and remembers whether a block comment is open
(`countCommentLines_cons`).  A line is overlooked if it starts like no comment and no line before it opens a block
comment that stays open up to it; all other lines are counted (`countCommentLines_add_overlooked`).
-/

namespace Semblance

open Lexeme

/-- A line that starts with the mark of a block comment. -/
def StartsBlock (line : List Char) : Prop :=
  ['/', '*'] <+: line

/-- A line that starts with the mark of a comment. -/
def StartsComment (line : List Char) : Prop :=
  ['/', '/'] <+: line ∨ StartsBlock line

/-- Lines of which one starts a block comment, with no closing mark in it or in the lines after it. -/
def StaysOpen (ls : List (List Char)) : Prop :=
  ∃ before line after, ls = before ++ line :: after ∧ StartsBlock line ∧ ∀ l ∈ line :: after, ¬ ['*', '/'] <:+: l

/-- The line of a number starts no comment, and no block comment is open at it. -/
def IsOverlooked (ls : List (List Char)) (i : Nat) : Prop :=
  (∃ line ∈ ls[i]?, ¬ StartsComment line) ∧ ¬ StaysOpen (ls.take i)

instance : DecidablePred StartsBlock :=
  fun line => inferInstanceAs (Decidable (_ <+: line))

instance : DecidablePred StartsComment :=
  fun line => inferInstanceAs (Decidable (_ <+: line ∨ StartsBlock line))

theorem startsComment_iff {line : List Char} :
    StartsComment line ↔ ∃ e t, line = '/' :: e :: t ∧ (e = '/' ∨ e = '*') := by
  constructor
  · rintro (⟨t, rfl⟩ | ⟨t, rfl⟩)
    · exact ⟨'/', t, rfl, .inl rfl⟩
    · exact ⟨'*', t, rfl, .inr rfl⟩
  · rintro ⟨e, t, rfl, rfl | rfl⟩
    · exact .inl ⟨t, rfl⟩
    · exact .inr ⟨t, rfl⟩

theorem staysOpen_iff_tails {ls : List (List Char)} :
    StaysOpen ls ↔ ∃ t ∈ ls.tails, (∃ line ∈ t.head?, StartsBlock line) ∧ ∀ l ∈ t, ¬ ['*', '/'] <:+: l := by
  constructor
  · rintro ⟨before, line, after, rfl, hline, hopen⟩
    exact ⟨line :: after, by simp, ⟨line, rfl, hline⟩, hopen⟩
  · rintro ⟨t, ht, ⟨line, hhead, hline⟩, hopen⟩
    obtain ⟨before, rfl⟩ := (List.mem_tails ..).1 ht
    obtain ⟨after, rfl⟩ := List.head?_eq_some_iff.1 hhead
    exact ⟨before, line, after, rfl, hline, hopen⟩

instance : DecidablePred StaysOpen :=
  fun _ => decidable_of_iff' _ staysOpen_iff_tails

instance (ls : List (List Char)) : DecidablePred (IsOverlooked ls) :=
  fun i => inferInstanceAs (Decidable ((∃ line ∈ ls[i]?, ¬ StartsComment line) ∧ ¬ StaysOpen (ls.take i)))

/-- The number of overlooked lines. -/
def overlooked (ls : List (List Char)) : Nat :=
  (List.range ls.length).countP (IsOverlooked ls ·)

/-! ### Open comments -/

theorem not_staysOpen_nil : ¬ StaysOpen [] := by simp [StaysOpen]

theorem staysOpen_concat {ls : List (List Char)} {line : List Char} :
    StaysOpen (ls ++ [line]) ↔ (StaysOpen ls ∨ StartsBlock line) ∧ ¬ ['*', '/'] <:+: line := by
  constructor
  · rintro ⟨before, first, after, heq, hstart, hopen⟩
    rcases List.eq_nil_or_concat after with rfl | ⟨after, last, rfl⟩
    · obtain ⟨rfl, rfl⟩ : ls = before ∧ line = first := by simpa using heq
      exact ⟨.inr hstart, hopen line (by simp)⟩
    · rw [List.concat_eq_append, ← List.cons_append, ← List.append_assoc] at heq
      obtain ⟨rfl, hlast⟩ := List.append_inj' heq rfl
      obtain rfl : line = last := List.singleton_inj.1 hlast
      refine ⟨.inl ⟨before, first, after, rfl, hstart, fun l hl => hopen l ?_⟩, hopen line (by simp)⟩
      rw [List.concat_eq_append, ← List.cons_append]
      exact List.mem_append_left _ hl
  · rintro ⟨⟨before, first, after, rfl, hstart, hopen⟩ | hstart, hline⟩
    · refine ⟨before, first, after ++ [line], by simp, hstart, ?_⟩
      simpa [or_imp, forall_and, hline] using hopen
    · exact ⟨ls, line, [], rfl, hstart, by simpa using hline⟩

/-! ### The counter -/

theorem closesComment_iff {line : List Char} : closesComment line ↔ ['*', '/'] <:+: line := by
  fun_induction closesComment line with
  | case1 => simp
  | case2 rest => simpa using (List.prefix_append ['*', '/'] rest).isInfix
  | case3 c rest hclose ih =>
    rw [infix_cons_iff_of_close, ih, or_iff_right]
    rintro ⟨rfl, hrest⟩
    obtain ⟨more, rfl⟩ := List.head?_eq_some_iff.1 hrest
    exact hclose more rfl rfl

/-- What the counter does with one line. -/
theorem countCommentLines_cons (count : Nat) (inside : Bool) (line : List Char) (rest : List (List Char)) :
    countCommentLines count inside (line :: rest) =
      countCommentLines (count + if inside ∨ StartsComment line then 1 else 0)
        ((inside || StartsBlock line) && !closesComment line) rest := by
  conv_lhs => unfold countCommentLines
  cases inside with
  | true => simp
  | false =>
    split
    · rename_i h
      simp at h
    · split
      · simp [StartsComment, StartsBlock]
      · simp [StartsComment, StartsBlock]
      · rename_i hline hblock
        have h1 : ¬ ['/', '/'] <+: line := by
          rintro ⟨t, rfl⟩
          exact hline t rfl
        have h2 : ¬ ['/', '*'] <+: line := by
          rintro ⟨t, rfl⟩
          exact hblock t rfl
        simp [StartsComment, StartsBlock, h1, h2]

/-- The lines that are counted and the overlooked ones are all lines from a place on. -/
theorem countCommentLines_add_countP (count : Nat) (before after : List (List Char)) :
    countCommentLines count (StaysOpen before) after +
      (List.range' before.length after.length).countP (IsOverlooked (before ++ after) ·) = count + after.length := by
  induction after generalizing count before with
  | nil => simp [countCommentLines]
  | cons line after ih =>
    have hopen : ((decide (StaysOpen before) || decide (StartsBlock line)) && !closesComment line) =
        decide (StaysOpen (before ++ [line])) := by
      rw [Bool.eq_iff_iff, decide_eq_true_iff, staysOpen_concat, ← closesComment_iff]
      simp
    have hoverlooked : IsOverlooked (before ++ line :: after) before.length ↔
        ¬ (StaysOpen before ∨ StartsComment line) := by
      simp [IsOverlooked, and_comm]
    have hstep := ih (count + if StaysOpen before ∨ StartsComment line then 1 else 0) (before ++ [line])
    rw [List.append_assoc, List.singleton_append, List.length_append, List.length_singleton] at hstep
    rw [countCommentLines_cons, hopen, List.length_cons, List.range'_succ, List.countP_cons]
    simp only [decide_eq_true_eq, hoverlooked]
    split at hstep
    · rename_i hcounted
      simp only [hcounted, if_true, not_true, if_false]
      omega
    · rename_i hcounted
      simp only [hcounted, if_false, not_false_iff, if_true]
      omega

/-- Every line is counted or overlooked. -/
theorem countCommentLines_add_overlooked (ls : List (List Char)) :
    countCommentLines 0 false ls + overlooked ls = ls.length := by
  have hall := countCommentLines_add_countP 0 [] ls
  simpa [not_staysOpen_nil, overlooked, List.range_eq_range'] using hall

theorem overlooked_eq_zero_iff {ls : List (List Char)} :
    overlooked ls = 0 ↔
      ∀ before line after, ls = before ++ line :: after → StartsComment line ∨ StaysOpen before := by
  rw [overlooked, List.countP_eq_zero]
  constructor
  · rintro h before line after rfl
    have hline := h before.length (by simp)
    simpa [IsOverlooked, or_iff_not_imp_left] using hline
  · intro h i hi
    have hlt : i < ls.length := List.mem_range.1 hi
    have hline := h (ls.take i) ls[i] (ls.drop (i + 1)) (by rw [← List.drop_eq_getElem_cons hlt, List.take_append_drop])
    simpa [IsOverlooked, hlt, or_iff_not_imp_left] using hline

end Semblance
