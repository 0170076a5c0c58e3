import Mathlib.Algebra.Field.Rat
import Mathlib.Data.List.Sort
import Mathlib.Data.String.Basic
import Semblance.Similarity.Overlap

/-!
# Word sets

Facts about `distinct`, `overlap` and the windows of a list of words.  The key facts: `distinct` gives the one
strictly increasing list with the words of a list (`pairwise_distinct`, `distinct_congr`), the overlap of a list with
itself is whole unless the list is empty (`overlap_self`), and a list at least as long as the window size has a window
(`distinctWindows_ne_nil`).
-/

namespace Semblance

/-! ### Distinct words -/

/-- Words in order stay in order, without repetitions, when equal neighbours are merged. -/
private theorem pairwise_merged {words : List String} (h : words.Pairwise (· ≤ ·)) :
    (words.foldr (fun w done => if done.head? = some w then done else w :: done) []).Pairwise (· < ·) ∧
      ∀ w ∈ words.foldr (fun w done => if done.head? = some w then done else w :: done) [], w ∈ words := by
  induction words with
  | nil => simp
  | cons w words ih =>
    rw [List.pairwise_cons] at h
    obtain ⟨hdone, hmem⟩ := ih h.2
    rw [List.foldr_cons]
    generalize List.foldr _ [] words = done at hdone hmem ⊢
    split
    · exact ⟨hdone, fun v hv => .tail _ (hmem v hv)⟩
    · -- the word is less than the next one, and so less than all
      rename_i hw
      refine ⟨List.pairwise_cons.2 ⟨?_, hdone⟩, ?_⟩
      · cases done with
        | nil => simp
        | cons u done =>
          have hu : w < u := lt_of_le_of_ne (h.1 u (hmem u (by simp))) (by simpa [eq_comm] using hw)
          intro v hv
          rcases List.mem_cons.1 hv with rfl | hv
          · exact hu
          · exact hu.trans ((List.pairwise_cons.1 hdone).1 v hv)
      · intro v hv
        rcases List.mem_cons.1 hv with rfl | hv
        · exact .head _
        · exact .tail _ (hmem v hv)

/-- The distinct words are strictly increasing. -/
theorem pairwise_distinct (words : List String) : (distinct words).Pairwise (· < ·) :=
  (pairwise_merged (List.pairwise_mergeSort' (· ≤ ·) words)).1

/-- A strictly increasing list is the list of the distinct words of all lists with its words. -/
theorem distinct_eq {a b : List String} (hb : b.Pairwise (· < ·)) (h : ∀ w, w ∈ a ↔ w ∈ b) : distinct a = b :=
  (pairwise_distinct a).eq_of_mem_iff hb fun w => by rw [mem_distinct, h]

/-- Lists with the same words have the same distinct words. -/
theorem distinct_congr {a b : List String} (h : ∀ w, w ∈ a ↔ w ∈ b) : distinct a = distinct b :=
  distinct_eq (pairwise_distinct b) fun w => by rw [mem_distinct, h]

theorem distinct_ne_nil {words : List String} (h : words ≠ []) : distinct words ≠ [] := by
  obtain ⟨w, hw⟩ := List.exists_mem_of_ne_nil words h
  exact List.ne_nil_of_mem (mem_distinct.2 hw)

/-! ### Overlap -/

theorem shared_eq_filter (a b : List String) : shared a b = (distinct a).filter (· ∈ b) := by
  refine List.filter_congr fun w _ => ?_
  rw [Std.HashSet.contains_ofList, List.contains_eq_mem]

theorem shared_self (words : List String) : shared words words = distinct words := by
  rw [shared_eq_filter, List.filter_eq_self]
  intro w hw
  simpa using mem_distinct.1 hw

/-- All of a number of things is the ratio one. -/
theorem ratio_self {n : Nat} (h : 0 < n) : ratio n n = 1 := by
  have hone : nearest 1 = 1 := by decide +kernel
  have hn : (n : Rat) ≠ 0 := Nat.cast_ne_zero.2 h.ne'
  rw [ratio, if_neg h.ne', div_self hn, hone]

/-- A list of words overlaps with itself wholly. -/
theorem overlap_self {words : List String} (h : words ≠ []) : overlap words words = 1 := by
  have happ : distinct (words ++ words) = distinct words := distinct_congr fun w => by simp
  rw [overlap, shared_self, happ]
  exact ratio_self (List.length_pos_of_ne_nil (distinct_ne_nil h))

/-! ### Windows -/

theorem windows_ne_nil {n : Nat} {words : List String} (h : n ≤ words.length) : windows n words ≠ [] := by
  have hself : words ∈ endings words := by
    cases words with
    | nil => simp
    | cons w words => simp [endings_cons]
  have htake : words.take n ∈ ((endings words).map (·.take n)).filter (·.length = n) := by
    rw [List.mem_filter, List.mem_map]
    exact ⟨⟨words, hself, rfl⟩, by simpa using h⟩
  exact List.ne_nil_of_mem (List.mem_map_of_mem htake)

/-- The windows of one word are the words. -/
theorem windows_one (words : List String) : windows 1 words = words := by
  induction words with
  | nil => rfl
  | cons w words ih =>
    rw [windows, endings_cons, List.map_cons, List.filter_cons_of_pos (by simp), List.map_cons, ← windows, ih]
    simp

/-- A list that is long enough has a window. -/
theorem distinctWindows_ne_nil {size : Int} {words : List String} (hpos : 0 < size) (h : size ≤ words.length) :
    distinctWindows size words ≠ [] := by
  rw [distinctWindows, if_pos hpos]
  exact distinct_ne_nil (windows_ne_nil (by omega))

/-- The window size is positive and no more than either length, if neither is zero. -/
theorem windowSize_bounds {m n : Nat} (hm : 0 < m) (hn : 0 < n) :
    0 < windowSize m n ∧ windowSize m n ≤ m ∧ windowSize m n ≤ n := by
  rw [windowSize, Int.fdiv_eq_ediv_of_nonneg _ (by decide)]
  omega

end Semblance
