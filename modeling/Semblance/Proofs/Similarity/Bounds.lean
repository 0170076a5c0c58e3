import Semblance.Proofs.Similarity.EditScript
import Semblance.Proofs.Similarity.WordSets

/-!
# Bounds on similarities

What is counted in common never exceeds what it is compared with: the edit distance is at most the longer length
(`editDistance_le_max`), a common subsequence is at most as long as the first list (`commonLength_le_left`), and shared
words are words of either list (`length_shared_le`).
-/

namespace Semblance

/-- Replacing all entries of the shorter list and adding the others is a way from one list to the other. -/
theorem editDistance_le_max {α : Type} [DecidableEq α] (xs ys : List α) :
    editDistance xs ys ≤ max xs.length ys.length := by
  rw [editDistance, Recurrence.table_eq_value]
  induction xs generalizing ys with
  | nil =>
    rw [Recurrence.value_nil_left]
    exact le_max_right _ _
  | cons x xs ih =>
    cases ys with
    | nil =>
      rw [Recurrence.value_nil_right]
      exact le_max_left _ _
    | cons y ys =>
      have htails := ih ys
      simp only [List.length_cons]
      by_cases h : x = y
      · subst h
        rw [value_cons_cons_self]
        omega
      · rw [value_cons_cons_of_ne h]
        omega

theorem commonLength_le_left {α : Type} [DecidableEq α] (xs ys : List α) : commonLength xs ys ≤ xs.length := by
  rw [commonLength, Recurrence.table_eq_value]
  induction xs generalizing ys with
  | nil =>
    rw [Recurrence.value_nil_left]
    exact le_rfl
  | cons x xs ih =>
    induction ys with
    | nil =>
      rw [Recurrence.value_nil_right]
      exact Nat.zero_le _
    | cons y ys ih' =>
      have htails := ih ys
      have hfirst := ih (y :: ys)
      rw [List.length_cons] at ih' ⊢
      rw [Recurrence.value_cons_cons]
      simp only [commonRecurrence] at htails hfirst ih' ⊢
      split <;> omega

/-- The words that two lists share are among the words of either. -/
theorem length_shared_le (a b : List String) : (shared a b).length ≤ (distinct (a ++ b)).length := by
  rw [shared_eq_filter]
  have hnodup : (distinct a).Nodup := (pairwise_distinct a).imp ne_of_lt
  refine (hnodup.filter _).length_le_of_subset fun w hw => ?_
  have hw' := mem_distinct.1 (List.mem_of_mem_filter hw)
  exact mem_distinct.2 (List.mem_append_left b hw')

end Semblance
