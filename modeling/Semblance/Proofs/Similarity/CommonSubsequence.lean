import Mathlib.Order.Bounds.Basic
import Semblance.Proofs.Similarity.Sublists

/-!
# Longest common subsequences

`commonLength` is the length of a longest common subsequence (`isGreatest_commonLength`).  No common subsequence is
longer (`length_le_commonLength`), and following the recurrence gives one that is as long (`exists_sublist_value`):
equal heads are kept, and of two different heads the one is dropped whose loss leaves more in common.  That keeping
equal heads loses nothing is the upper bound.

The usual table goes through the lists from the front: its entry for two beginnings comes from the entries for shorter
ones.  A common subsequence read backwards is one of the lists read backwards (`commonLength_reverse`), so such a table
ends with the same number (`eq_commonLength_of_table`).
-/

namespace Semblance

variable {α : Type} [DecidableEq α]

/-- The recurrence leads to a common subsequence of its own length. -/
theorem exists_sublist_value (xs ys : List α) :
    ∃ zs : List α, zs.Sublist xs ∧ zs.Sublist ys ∧ zs.length = commonRecurrence.value xs ys := by
  induction xs generalizing ys with
  | nil =>
    rw [Recurrence.value_nil_left]
    exact ⟨[], List.Sublist.refl [], List.nil_sublist ys, rfl⟩
  | cons x xs ih =>
    induction ys with
    | nil =>
      rw [Recurrence.value_nil_right]
      exact ⟨[], List.nil_sublist (x :: xs), List.Sublist.refl [], rfl⟩
    | cons y ys ih' =>
      rw [Recurrence.value_cons_cons]
      simp only [commonRecurrence, decide_eq_true_eq] at ih ih' ⊢
      by_cases hxy : x = y
      · subst hxy
        obtain ⟨zs, hx, hy, hlen⟩ := ih ys
        refine ⟨x :: zs, hx.cons_cons x, hy.cons_cons x, ?_⟩
        rw [if_pos rfl, List.length_cons, hlen]
      · rw [if_neg hxy]
        -- the longer of the two subsequences that come from dropping a head
        rcases le_total (commonRecurrence.value xs (y :: ys)) (commonRecurrence.value (x :: xs) ys) with hle | hle
        · obtain ⟨zs, hx, hy, hlen⟩ := ih'
          refine ⟨zs, hx, hy.cons y, ?_⟩
          rw [hlen]
          exact (max_eq_right hle).symm
        · obtain ⟨zs, hx, hy, hlen⟩ := ih (y :: ys)
          refine ⟨zs, hx.cons x, hy, ?_⟩
          rw [hlen]
          exact (max_eq_left hle).symm

theorem exists_sublist_commonLength (xs ys : List α) :
    ∃ zs : List α, zs.Sublist xs ∧ zs.Sublist ys ∧ zs.length = commonLength xs ys := by
  rw [commonLength, Recurrence.table_eq_value]
  exact exists_sublist_value xs ys

/-- The common length of two lists is that of a longest list which is a subsequence of both. -/
theorem isGreatest_commonLength (xs ys : List α) :
    IsGreatest {n | ∃ zs : List α, zs.Sublist xs ∧ zs.Sublist ys ∧ zs.length = n} (commonLength xs ys) := by
  constructor
  · exact exists_sublist_commonLength xs ys
  · intro n hn
    obtain ⟨zs, hx, hy, rfl⟩ := hn
    exact length_le_commonLength hx hy

/-! ### The table over beginnings -/

theorem commonLength_le_reverse (xs ys : List α) : commonLength xs ys ≤ commonLength xs.reverse ys.reverse := by
  obtain ⟨zs, hx, hy, hlen⟩ := exists_sublist_commonLength xs ys
  rw [← hlen, ← List.length_reverse]
  exact length_le_commonLength (List.reverse_sublist.2 hx) (List.reverse_sublist.2 hy)

theorem commonLength_reverse (xs ys : List α) : commonLength xs.reverse ys.reverse = commonLength xs ys := by
  apply Nat.le_antisymm
  · simpa using commonLength_le_reverse xs.reverse ys.reverse
  · exact commonLength_le_reverse xs ys

theorem commonLength_nil_left (ys : List α) : commonLength [] ys = 0 := by
  rw [commonLength, Recurrence.table_eq_value, Recurrence.value_nil_left]
  rfl

theorem commonLength_nil_right (xs : List α) : commonLength xs [] = 0 := by
  rw [commonLength, Recurrence.table_eq_value, Recurrence.value_nil_right]
  rfl

theorem commonLength_cons_cons (x y : α) (xs ys : List α) :
    commonLength (x :: xs) (y :: ys) =
      if x = y then commonLength xs ys + 1 else max (commonLength xs (y :: ys)) (commonLength (x :: xs) ys) := by
  simp only [commonLength, Recurrence.table_eq_value, Recurrence.value_cons_cons]
  simp [commonRecurrence]

/-- The recurrence for the last entries instead of the first ones. -/
theorem commonLength_concat_concat (xs ys : List α) (x y : α) :
    commonLength (xs ++ [x]) (ys ++ [y]) =
      if x = y then commonLength xs ys + 1
      else max (commonLength xs (ys ++ [y])) (commonLength (xs ++ [x]) ys) := by
  have h := commonLength_cons_cons x y xs.reverse ys.reverse
  simpa only [← List.reverse_concat, commonLength_reverse] using h

/-- A table over the beginnings of two lists, with the classic recurrence, has their common length as its last entry:
each of its entries is the common length of two beginnings. -/
theorem eq_commonLength_of_table {xs ys : List α} {table : Nat → Nat → Nat} (hrow : ∀ j, table 0 j = 0)
    (hcolumn : ∀ i, table i 0 = 0)
    (hstep : ∀ (i j : Nat) (hi : i < xs.length) (hj : j < ys.length),
      table (i + 1) (j + 1) =
        if xs[i] = ys[j] then table i j + 1 else max (table i (j + 1)) (table (i + 1) j)) :
    table xs.length ys.length = commonLength xs ys := by
  have hentry : ∀ i ≤ xs.length, ∀ j ≤ ys.length, table i j = commonLength (xs.take i) (ys.take j) := by
    intro i
    induction i with
    | zero =>
      intro _ j _
      rw [hrow, List.take_zero, commonLength_nil_left]
    | succ i ih =>
      intro hi j hj
      induction j with
      | zero => rw [hcolumn, List.take_zero, commonLength_nil_right]
      | succ j ih' =>
        rw [hstep i j hi hj, ih (by omega) j (by omega), ih (by omega) (j + 1) hj, ih' (by omega),
          List.take_succ_eq_append_getElem hi, List.take_succ_eq_append_getElem hj, commonLength_concat_concat]
  rw [hentry _ le_rfl _ le_rfl, List.take_length, List.take_length]

end Semblance
