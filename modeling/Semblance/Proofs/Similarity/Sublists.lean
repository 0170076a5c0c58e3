import Mathlib.Data.List.Basic
import Semblance.Proofs.Similarity.Bounds

/-!
# Insertions

Both alignments are exact when one list is the other with entries inserted: the edit distance is the number of
insertions (`editDistance_of_sublist`), and the shorter list is the longest common subsequence
(`commonLength_of_sublist`).
-/

namespace Semblance

variable {α : Type} {xs ys zs : List α}

/-! ### Edits -/

/-- Inserting the missing entries one by one is a script. -/
theorem EditScript.of_sublist (h : xs.Sublist ys) : EditScript (ys.length - xs.length) xs ys := by
  induction h with
  | slnil => exact .refl []
  | @cons xs ys y h ih =>
    have hle : xs.length ≤ ys.length := h.length_le
    have hstep : EditStep xs (y :: xs) := .insert [] xs y
    have hscript := EditScript.cons hstep (ih.cons_cons y)
    rwa [← Nat.sub_add_comm hle] at hscript
  | @cons_cons xs ys x h ih =>
    rw [List.length_cons, List.length_cons, Nat.add_sub_add_right]
    exact ih.cons_cons x

theorem EditStep.length_le (h : EditStep xs ys) : ys.length ≤ xs.length + 1 := by
  cases h <;> simp only [List.length_append, List.length_cons] <;> omega

theorem EditScript.length_le {n : Nat} (h : EditScript n xs ys) : ys.length ≤ xs.length + n := by
  induction h with
  | refl xs => exact le_rfl
  | cons hs _ ih =>
    have := hs.length_le
    omega

variable [DecidableEq α]

/-- The edit distance to a list that contains the first one is the number of entries more. -/
theorem editDistance_of_sublist (h : xs.Sublist ys) : editDistance xs ys = ys.length - xs.length := by
  obtain ⟨hscript, hleast⟩ := isLeast_editDistance xs ys
  apply le_antisymm
  · exact hleast (.of_sublist h)
  · have := EditScript.length_le hscript
    omega

/-! ### Common subsequences -/

/-- Every common subsequence is counted. -/
theorem length_le_commonLength (hx : zs.Sublist xs) (hy : zs.Sublist ys) : zs.length ≤ commonLength xs ys := by
  rw [commonLength, Recurrence.table_eq_value]
  induction xs generalizing ys zs with
  | nil =>
    rw [List.sublist_nil.1 hx]
    exact Nat.zero_le _
  | cons x xs ih =>
    induction ys generalizing zs with
    | nil =>
      rw [List.sublist_nil.1 hy]
      exact Nat.zero_le _
    | cons y ys ih' =>
      cases zs with
      | nil => exact Nat.zero_le _
      | cons z zs =>
        rw [Recurrence.value_cons_cons]
        simp only [commonRecurrence, decide_eq_true_eq] at ih ih' ⊢
        by_cases hxy : x = y
        · have htails := ih hx.of_cons_cons (hxy ▸ hy).of_cons_cons
          rw [if_pos hxy, List.length_cons]
          omega
        · -- the first entry is missing in one of the lists, so it can go there
          rw [if_neg hxy, le_max_iff]
          by_cases hzx : z = x
          · have hzy : z ≠ y := hzx ▸ hxy
            exact .inr (ih' hx (hy.of_cons_of_ne hzy))
          · exact .inl (ih (hx.of_cons_of_ne hzx) hy)

/-- A list has its whole length in common with a list that contains it. -/
theorem commonLength_of_sublist (h : xs.Sublist ys) : commonLength xs ys = xs.length :=
  le_antisymm (commonLength_le_left xs ys) (length_le_commonLength (List.Sublist.refl xs) h)

theorem commonLength_self (xs : List α) : commonLength xs xs = xs.length :=
  commonLength_of_sublist (List.Sublist.refl xs)

end Semblance
