import Mathlib.Order.Bounds.Basic
import Mathlib.Order.MinMax
import Semblance.Similarity.Alignment

/-!
# Edit scripts

An edit puts one entry into a list, takes one out, or replaces one; a script is a sequence of edits.  The edit
distance of two lists is the least number of edits of a script from one to the other (`isLeast_editDistance`): the
recurrence builds a script of that length, and one edit of the first list changes the recurrence by at most one
(`EditStep.value_le`), so no script is shorter.  Whatever else computes this number agrees with the edit distance
(`eq_editDistance_of_isLeast`).
-/

namespace Semblance

variable {α : Type}

/-- One edit of a list. -/
inductive EditStep : List α → List α → Prop
  | insert (before after : List α) (x : α) : EditStep (before ++ after) (before ++ x :: after)
  | delete (before after : List α) (x : α) : EditStep (before ++ x :: after) (before ++ after)
  | replace (before after : List α) (x y : α) : EditStep (before ++ x :: after) (before ++ y :: after)

/-- A sequence of so many edits from one list to another. -/
inductive EditScript : Nat → List α → List α → Prop
  | refl (xs : List α) : EditScript 0 xs xs
  | cons {n : Nat} {xs ys zs : List α} (h : EditStep xs ys) (t : EditScript n ys zs) : EditScript (n + 1) xs zs

/-! ### The recurrence gives a script -/

theorem EditStep.cons_cons {xs ys : List α} (h : EditStep xs ys) (x : α) : EditStep (x :: xs) (x :: ys) := by
  cases h with
  | insert before after y => exact .insert (x :: before) after y
  | delete before after y => exact .delete (x :: before) after y
  | replace before after y z => exact .replace (x :: before) after y z

/-- A script leaves what stands before the lists alone. -/
theorem EditScript.cons_cons {n : Nat} {xs ys : List α} (h : EditScript n xs ys) (x : α) :
    EditScript n (x :: xs) (x :: ys) := by
  induction h with
  | refl xs => exact .refl _
  | cons hs _ ih => exact .cons (hs.cons_cons x) ih

/-- A list is built from the empty list by insertions. -/
theorem EditScript.of_nil (ys : List α) : EditScript ys.length [] ys := by
  induction ys with
  | nil => exact .refl []
  | cons y ys ih => exact .cons (.insert [] [] y) (ih.cons_cons y)

/-- A list is taken apart by deletions. -/
theorem EditScript.to_nil (xs : List α) : EditScript xs.length xs [] := by
  induction xs with
  | nil => exact .refl []
  | cons x xs ih => exact .cons (.delete [] xs x) ih

variable [DecidableEq α]

/-- The recurrence for unequal heads, as the least of its three branches. -/
theorem value_cons_cons_of_ne {x y : α} (h : x ≠ y) (xs ys : List α) :
    editRecurrence.value (x :: xs) (y :: ys) =
      1 + min (editRecurrence.value xs ys)
        (min (editRecurrence.value xs (y :: ys)) (editRecurrence.value (x :: xs) ys)) := by
  rw [Recurrence.value_cons_cons]
  simp [editRecurrence, h]

theorem value_cons_cons_self (x : α) (xs ys : List α) :
    editRecurrence.value (x :: xs) (x :: ys) = editRecurrence.value xs ys := by
  rw [Recurrence.value_cons_cons]
  simp [editRecurrence]

theorem editScript_value (xs ys : List α) : EditScript (editRecurrence.value xs ys) xs ys := by
  induction xs generalizing ys with
  | nil =>
    rw [Recurrence.value_nil_left]
    exact .of_nil ys
  | cons x xs ih =>
    induction ys with
    | nil =>
      rw [Recurrence.value_nil_right]
      exact .to_nil (x :: xs)
    | cons y ys ih' =>
      by_cases h : x = y
      · subst h
        rw [value_cons_cons_self]
        exact (ih ys).cons_cons x
      · rw [value_cons_cons_of_ne h, Nat.add_comm]
        -- the least branch is one of replacing, deleting and inserting the head
        rcases min_choice (editRecurrence.value xs ys)
          (min (editRecurrence.value xs (y :: ys)) (editRecurrence.value (x :: xs) ys)) with hm | hm
        · rw [hm]
          exact .cons (.replace [] xs x y) ((ih ys).cons_cons y)
        · rw [hm]
          rcases min_choice (editRecurrence.value xs (y :: ys)) (editRecurrence.value (x :: xs) ys) with hm' | hm'
          · rw [hm']
            exact .cons (.delete [] xs x) (ih (y :: ys))
          · rw [hm']
            exact .cons (.insert [] (x :: xs) y) (ih'.cons_cons y)

/-! ### No script is shorter -/

theorem value_comm (xs ys : List α) : editRecurrence.value xs ys = editRecurrence.value ys xs := by
  refine editRecurrence.value_comm (fun same tails first second => ?_) xs ys
  simp only [editRecurrence, min_comm first second]

theorem value_self (xs : List α) : editRecurrence.value xs xs = 0 := by
  induction xs with
  | nil => rw [Recurrence.value_nil_left]; rfl
  | cons x xs ih => rw [value_cons_cons_self, ih]

/-- An entry more in front changes the recurrence by at most one. -/
theorem value_cons_le (x : α) (xs zs : List α) :
    editRecurrence.value (x :: xs) zs ≤ editRecurrence.value xs zs + 1 ∧
      editRecurrence.value xs zs ≤ editRecurrence.value (x :: xs) zs + 1 := by
  induction hn : xs.length + zs.length using Nat.strong_induction_on generalizing x xs zs with
  | _ n ih =>
    cases zs with
    | nil =>
      rw [Recurrence.value_nil_right, Recurrence.value_nil_right]
      simp only [editRecurrence, List.length_cons]
      omega
    | cons z zs =>
      -- the same for an entry more in front of the second list
      have hz := ih (zs.length + xs.length) (by simp at hn; omega) z zs xs rfl
      rw [value_comm (z :: zs) xs, value_comm zs xs] at hz
      by_cases h : x = z
      · subst h
        rw [value_cons_cons_self]
        exact ⟨hz.2, hz.1⟩
      · have hx := ih (xs.length + zs.length) (by simp at hn; omega) x xs zs rfl
        rw [value_cons_cons_of_ne h]
        omega

/-- An edit of the rest of a list changes the recurrence by no more than the edit did. -/
theorem value_cons_le_of_le {xs ys : List α} {k : Nat}
    (h : ∀ zs, editRecurrence.value xs zs ≤ editRecurrence.value ys zs + k) (x : α) (zs : List α) :
    editRecurrence.value (x :: xs) zs ≤ editRecurrence.value (x :: ys) zs + k := by
  induction zs with
  | nil =>
    have := h []
    rw [Recurrence.value_nil_right, Recurrence.value_nil_right] at this ⊢
    simp only [editRecurrence, List.length_cons] at this ⊢
    omega
  | cons z zs ih =>
    by_cases hx : x = z
    · subst hx
      rw [value_cons_cons_self, value_cons_cons_self]
      exact h zs
    · have := h zs
      have := h (z :: zs)
      rw [value_cons_cons_of_ne hx, value_cons_cons_of_ne hx]
      omega

theorem value_replace_le (x y : α) (xs zs : List α) :
    editRecurrence.value (x :: xs) zs ≤ editRecurrence.value (y :: xs) zs + 1 := by
  induction zs with
  | nil =>
    rw [Recurrence.value_nil_right, Recurrence.value_nil_right]
    simp
  | cons z zs ih =>
    have hz := value_cons_le z zs xs
    rw [value_comm (z :: zs) xs, value_comm zs xs] at hz
    have hy := value_cons_le y xs zs
    by_cases hxz : x = z <;> by_cases hyz : y = z
    · subst hxz hyz
      omega
    · subst hxz
      rw [value_cons_cons_self, value_cons_cons_of_ne hyz]
      omega
    · subst hyz
      rw [value_cons_cons_self, value_cons_cons_of_ne hxz]
      omega
    · rw [value_cons_cons_of_ne hxz, value_cons_cons_of_ne hyz]
      omega

/-- One edit changes the recurrence by at most one. -/
theorem EditStep.value_le {xs ys : List α} (h : EditStep xs ys) (zs : List α) :
    editRecurrence.value xs zs ≤ editRecurrence.value ys zs + 1 := by
  have lift (before : List α) {as bs : List α}
      (h : ∀ zs, editRecurrence.value as zs ≤ editRecurrence.value bs zs + 1) (zs : List α) :
      editRecurrence.value (before ++ as) zs ≤ editRecurrence.value (before ++ bs) zs + 1 := by
    induction before generalizing zs with
    | nil => exact h zs
    | cons b before ih => exact value_cons_le_of_le ih b zs
  cases h with
  | insert before after x => exact lift before (fun zs => (value_cons_le x after zs).2) zs
  | delete before after x => exact lift before (fun zs => (value_cons_le x after zs).1) zs
  | replace before after x y => exact lift before (value_replace_le x y after) zs

theorem EditScript.value_le {n : Nat} {xs ys : List α} (h : EditScript n xs ys) :
    editRecurrence.value xs ys ≤ n := by
  induction h with
  | refl xs => rw [value_self]
  | @cons n xs ys zs hs _ ih =>
    have := hs.value_le zs
    omega

/-- The edit distance is the least number of edits from one list to the other. -/
theorem isLeast_editDistance (xs ys : List α) : IsLeast {n | EditScript n xs ys} (editDistance xs ys) := by
  rw [editDistance, Recurrence.table_eq_value]
  exact ⟨editScript_value xs ys, fun n h => h.value_le⟩

/-- No other function gives the least number of edits, so it does not matter how the distance is computed. -/
theorem eq_editDistance_of_isLeast {distance : List α → List α → Nat}
    (h : ∀ xs ys, IsLeast {n | EditScript n xs ys} (distance xs ys)) : distance = editDistance := by
  funext xs ys
  exact (h xs ys).unique (isLeast_editDistance xs ys)

theorem editDistance_self (xs : List α) : editDistance xs xs = 0 :=
  Nat.le_zero.1 ((isLeast_editDistance xs xs).2 (.refl xs))

/-- Only equal lists need no edit. -/
theorem editDistance_eq_zero_iff {xs ys : List α} : editDistance xs ys = 0 ↔ xs = ys := by
  constructor
  · intro h
    have hscript := (isLeast_editDistance xs ys).1
    rw [h] at hscript
    cases hscript with
    | refl => rfl
  · intro h
    rw [h, editDistance_self]

end Semblance
