import Mathlib.Data.Finset.Card
import Mathlib.Data.List.Infix
import Semblance.Proofs.Similarity.WordSets

/-!
# Sets of windows

The overlap of two lists of words counts sets: the words of both, and the words of either (`overlap_eq_ratio_card`).
The windows of a list are its runs of a fixed length (`mem_windowSet`), and a window of words that have no space in
them can be read back from its text (`intercalate_inj`).
-/

namespace Semblance

/-! ### Words as sets -/

theorem toFinset_distinct (words : List String) : (distinct words).toFinset = words.toFinset := by
  ext w
  rw [List.mem_toFinset, List.mem_toFinset, mem_distinct]

theorem length_distinct (words : List String) : (distinct words).length = words.toFinset.card := by
  have hnodup : (distinct words).Nodup := (pairwise_distinct words).imp ne_of_lt
  rw [← toFinset_distinct, List.toFinset_card_of_nodup hnodup]

theorem length_shared (a b : List String) : (shared a b).length = (a.toFinset ∩ b.toFinset).card := by
  have hnodup : (distinct a).Nodup := (pairwise_distinct a).imp ne_of_lt
  have hset : (shared a b).toFinset = a.toFinset ∩ b.toFinset := by
    ext w
    simp [shared_eq_filter, mem_distinct]
  rw [← hset, List.toFinset_card_of_nodup]
  rw [shared_eq_filter]
  exact hnodup.filter _

theorem overlap_eq_ratio_card (a b : List String) :
    overlap a b = ratio (a.toFinset ∩ b.toFinset).card (a.toFinset ∪ b.toFinset).card := by
  rw [overlap, length_shared, length_distinct, List.toFinset_append]

/-! ### Windows of any entries -/

variable {α β : Type} [DecidableEq α] [DecidableEq β] {n : Nat}

/-- The runs of `n` neighbouring entries of a list, from each place that has as many left. -/
def windowSet (n : Nat) (l : List α) : Finset (List α) :=
  (Finset.range (l.length + 1 - n)).image fun start => (l.drop start).take n

theorem mem_windowSet {w l : List α} : w ∈ windowSet n l ↔ w.length = n ∧ w <:+: l := by
  rw [windowSet, Finset.mem_image]
  constructor
  · intro h
    obtain ⟨start, hstart, rfl⟩ := h
    rw [Finset.mem_range] at hstart
    constructor
    · rw [List.length_take, List.length_drop]
      omega
    · exact (List.take_prefix n _).isInfix.trans (List.drop_suffix start l).isInfix
  · intro h
    obtain ⟨hlen, before, after, hl⟩ := h
    refine ⟨before.length, ?_, ?_⟩
    · rw [Finset.mem_range, ← hl, List.length_append, List.length_append]
      omega
    · rw [← hl, List.append_assoc, List.drop_left, ← hlen, List.take_left]

theorem windowSet_map (f : α → β) (l : List α) : windowSet n (l.map f) = (windowSet n l).image (List.map f) := by
  rw [windowSet, windowSet, Finset.image_image, List.length_map]
  congr 1
  funext start
  rw [Function.comp_apply, List.map_take, List.map_drop]

/-! ### Windows of words -/

theorem mem_endings {e words : List String} : e ∈ endings words ↔ e <:+ words := by
  induction words with
  | nil => simp
  | cons w words ih => rw [endings_cons, List.mem_cons, ih, List.suffix_cons_iff]

/-- The windows of a list of words are written with spaces. -/
theorem toFinset_windows (n : Nat) (words : List String) :
    (windows n words).toFinset = (windowSet n words).image (" ".intercalate ·) := by
  have hruns (w : List String) :
      w ∈ ((endings words).map (·.take n)).filter (·.length = n) ↔ w ∈ windowSet n words := by
    rw [mem_windowSet, List.mem_filter, List.mem_map, List.infix_iff_prefix_suffix, decide_eq_true_eq, and_comm]
    refine and_congr_right fun hlen => ?_
    constructor
    · intro h
      obtain ⟨e, he, rfl⟩ := h
      exact ⟨e, List.take_prefix n e, mem_endings.1 he⟩
    · intro h
      obtain ⟨e, hpre, he⟩ := h
      refine ⟨e, mem_endings.2 he, ?_⟩
      rw [← hlen]
      exact (List.prefix_iff_eq_take.1 hpre).symm
  ext text
  rw [List.mem_toFinset, windows, List.mem_map, Finset.mem_image]
  exact exists_congr fun w => and_congr_left fun _ => hruns w

/-- Words without spaces can be read back from their text. -/
theorem intercalate_inj {u v : List String} (hu : ∀ w ∈ u, ' ' ∉ w.toList) (hv : ∀ w ∈ v, ' ' ∉ w.toList)
    (hune : u ≠ []) (hvne : v ≠ []) (h : " ".intercalate u = " ".intercalate v) : u = v := by
  have hsplit {ws : List String} (hws : ∀ w ∈ ws, ' ' ∉ w.toList) (hne : ws ≠ []) :
      (" ".intercalate ws).toList.splitOn ' ' = ws.map String.toList := by
    rw [String.toList_intercalate]
    refine List.splitOn_intercalate ' ' ?_ (by simpa using hne)
    intro chars hchars
    obtain ⟨w, hw, rfl⟩ := List.mem_map.1 hchars
    exact hws w hw
  have hmap : u.map String.toList = v.map String.toList := by
    rw [← hsplit hu hune, ← hsplit hv hvne, h]
  exact List.map_injective_iff.2 (fun _ _ => String.toList_inj.1) hmap

end Semblance
