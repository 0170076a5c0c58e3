import Semblance.Proofs.Similarity.EditScript
import Semblance.Proofs.Similarity.LinePairing
import Semblance.Proofs.Similarity.WordSets

/-!
# Symmetry

Similarity does not depend on which side comes first: overlaps, window sizes, edit distances and common subsequences
are symmetric, and pairing the lines of two texts the other way round gives the same pairs with their sides exchanged
(`sharedLines_perm_swap`).
-/

namespace Semblance

/-! ### Words -/

theorem shared_comm (a b : List String) : shared a b = shared b a := by
  rw [shared_eq_filter, shared_eq_filter]
  have hab : ((distinct a).filter (· ∈ b)).Pairwise (· < ·) := (pairwise_distinct a).filter _
  have hba : ((distinct b).filter (· ∈ a)).Pairwise (· < ·) := (pairwise_distinct b).filter _
  apply hab.eq_of_mem_iff hba
  intro w
  simp only [List.mem_filter, mem_distinct, decide_eq_true_eq]
  exact and_comm

theorem overlap_comm (a b : List String) : overlap a b = overlap b a := by
  have hall : distinct (a ++ b) = distinct (b ++ a) := by
    apply distinct_congr
    intro w
    simp only [List.mem_append]
    exact or_comm
  unfold overlap
  rw [shared_comm a b, hall]

theorem windowSize_comm (lengthA lengthB : Int) : windowSize lengthA lengthB = windowSize lengthB lengthA := by
  unfold windowSize
  rw [min_comm lengthA lengthB]

/-! ### Alignments -/

theorem editDistance_comm {α : Type} [DecidableEq α] (xs ys : List α) : editDistance xs ys = editDistance ys xs := by
  unfold editDistance
  rw [Recurrence.table_eq_value, Recurrence.table_eq_value, value_comm]

theorem commonLength_comm {α : Type} [DecidableEq α] (xs ys : List α) : commonLength xs ys = commonLength ys xs := by
  have hstep : ∀ same tails first second,
      commonRecurrence.step same tails first second = commonRecurrence.step same tails second first := by
    intro same tails first second
    simp only [commonRecurrence, max_comm first second]
  unfold commonLength
  rw [Recurrence.table_eq_value, Recurrence.table_eq_value, commonRecurrence.value_comm hstep]

/-! ### Shared lines -/

/-- A shared line seen from the second text. -/
def SharedLine.swap (m : SharedLine) : SharedLine :=
  { m with lineA := m.lineB, lineB := m.lineA }

@[simp] theorem SharedLine.swap_swap (m : SharedLine) : m.swap.swap = m := rfl

theorem mem_sharedLines {a b : String} {m : SharedLine} :
    m ∈ sharedLines a b ↔
      m ∈ List.zipWith (SharedLine.exact m.content) (lineNumbers a m.content) (lineNumbers b m.content) := by
  rw [← filter_sharedLines, List.mem_filter]
  simp

/-- The zip of one line's numbers in both texts, taken the other way round. -/
private theorem zipWith_exact_swap (c : String) (ms ns : List Nat) :
    List.zipWith (SharedLine.exact c) ns ms = (List.zipWith (SharedLine.exact c) ms ns).map SharedLine.swap := by
  rw [List.map_zipWith, List.zipWith_comm]
  rfl

theorem swap_mem_sharedLines {a b : String} {m : SharedLine} (h : m ∈ sharedLines a b) : m.swap ∈ sharedLines b a := by
  rw [mem_sharedLines] at h ⊢
  show m.swap ∈ List.zipWith (SharedLine.exact m.content) (lineNumbers b m.content) (lineNumbers a m.content)
  rw [zipWith_exact_swap]
  exact List.mem_map_of_mem h

theorem nodup_sharedLines (a b : String) : (sharedLines a b).Nodup := by
  have hlines := pairwise_lineA a b
  rw [List.pairwise_map] at hlines
  exact hlines.imp fun hlt heq => absurd (congrArg SharedLine.lineA heq) hlt.ne

/-- The shared lines of two texts, taken the other way round, are the same with both sides exchanged. -/
theorem sharedLines_perm_swap (a b : String) : (sharedLines b a).Perm ((sharedLines a b).map SharedLine.swap) := by
  have hswap : ((sharedLines a b).map SharedLine.swap).Nodup :=
    (nodup_sharedLines a b).map (Function.LeftInverse.injective SharedLine.swap_swap)
  rw [List.perm_ext_iff_of_nodup (nodup_sharedLines b a) hswap]
  intro m
  rw [List.mem_map]
  constructor
  · intro h
    exact ⟨m.swap, swap_mem_sharedLines h, m.swap_swap⟩
  · rintro ⟨n, hn, rfl⟩
    exact swap_mem_sharedLines hn

end Semblance
