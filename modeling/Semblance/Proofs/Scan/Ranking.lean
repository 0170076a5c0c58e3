import Mathlib.Data.List.Sort
import Semblance.Proofs.Scan.Survey

/-!
# The ranking of a scan

The compared contents are in strict order of their submitters, so the pairs of contents are in lexicographic order of
their names (`pairwise_allPairs`).  Ranking sorts by scores and keeps that order among pairs of equal score
(`pairwise_rank`).
-/

namespace Semblance

/-! ### Sorted contents and their pairs -/

theorem mem_acceptedContents {assessments : List Assessment} {submitter : RawText} {content : String} :
    (submitter, content) ∈ acceptedContents assessments ↔
      ∃ a ∈ assessments, a.submitter = submitter ∧ a.content = some content := by
  simp only [acceptedContents, mem_sortByName, List.mem_filterMap, Option.map_eq_some_iff, Prod.mk.injEq]
  constructor
  · rintro ⟨a, ha, _, hc, rfl, rfl⟩
    exact ⟨a, ha, rfl, hc⟩
  · rintro ⟨a, ha, rfl, hc⟩
    exact ⟨a, ha, content, hc, rfl, rfl⟩

/-- The accepted contents of different submitters are in strict order of their submitters. -/
theorem pairwise_acceptedContents {assessments : List Assessment}
    (h : (assessments.map Assessment.submitter).Nodup) :
    (acceptedContents assessments).Pairwise fun a b => a.1 < b.1 := by
  apply pairwise_sortByName
  refine h.sublist ?_
  clear h
  induction assessments with
  | nil => simp
  | cons a assessments ih =>
    rw [List.filterMap_cons]
    cases a.content with
    | none => exact ih.cons _
    | some content => exact ih.cons_cons _

/-- In a list in strict order, the pairs are those of an entry and a later one. -/
theorem mem_allPairs_of_pairwise {α : Type} {r : α → α → Prop} [Std.Asymm r] {l : List α} (h : l.Pairwise r)
    {x y : α} : (x, y) ∈ allPairs l ↔ x ∈ l ∧ y ∈ l ∧ r x y := by
  rw [mem_allPairs]
  constructor
  · intro hs
    exact ⟨hs.subset (by simp), hs.subset (by simp), List.pairwise_pair.1 (h.sublist hs)⟩
  · rintro ⟨hx, hy, hxy⟩
    induction h with
    | nil => simp at hx
    | @cons z l hz _ ih =>
      rcases List.mem_cons.1 hx with rfl | hx'
      · rcases List.mem_cons.1 hy with rfl | hy'
        · exact absurd hxy (Std.Asymm.asymm _ _ hxy)
        · exact (List.singleton_sublist.2 hy').cons_cons _
      · rcases List.mem_cons.1 hy with rfl | hy'
        · exact absurd hxy (Std.Asymm.asymm _ _ (hz x hx'))
        · exact (ih hx' hy').cons _

/-- The pairs of a list in strict order are in lexicographic order. -/
theorem pairwise_allPairs {α : Type} {r : α → α → Prop} {l : List α} (h : l.Pairwise r) :
    (allPairs l).Pairwise fun p q => r p.1 q.1 ∨ p.1 = q.1 ∧ r p.2 q.2 := by
  induction h with
  | nil => simp [allPairs]
  | @cons z l hz h ih =>
    rw [allPairs, List.pairwise_append, List.pairwise_map]
    refine ⟨h.imp fun hr => .inr ⟨rfl, hr⟩, ih, ?_⟩
    rintro p hp ⟨x, y⟩ hq
    obtain ⟨w, -, rfl⟩ := List.mem_map.1 hp
    exact .inl (hz x ((mem_allPairs.1 hq).subset (by simp)))

/-! ### Ranks -/

theorem mem_rank {threshold : Number} {pairs : List (ComparedPair RawText)} {pair : ComparedPair RawText} :
    pair ∈ rank threshold pairs ↔ pair ∈ pairs ∧ threshold.isAbove pair.report.overall = false := by
  simp [rank]

/-- Sorting keeps the order among the entries of one rank. -/
private theorem filter_mergeSort_of_eq {α : Type} (score : α → Int) (k : Int) (l : List α) :
    (l.mergeSort fun a b => decide (score b ≤ score a)).filter (score · = k) = l.filter (score · = k) := by
  have hperm := List.mergeSort_perm l fun a b => decide (score b ≤ score a)
  -- entries of one score count as sorted, so sorting the whole list keeps them in a row as they are
  have hequal : (l.filter (score · = k)).Pairwise fun a b => decide (score b ≤ score a) := by
    rw [List.pairwise_iff_forall_sublist]
    intro a b hs
    have ha : score a = k := by simpa using (List.mem_filter.1 (hs.subset (by simp : a ∈ [a, b]))).2
    have hb : score b = k := by simpa using (List.mem_filter.1 (hs.subset (by simp : b ∈ [a, b]))).2
    simp [ha, hb]
  have hsub : (l.filter (score · = k)).Sublist (l.mergeSort fun a b => decide (score b ≤ score a)) := by
    refine List.sublist_mergeSort (fun a b c hab hbc => ?_) (fun a b => ?_) hequal List.filter_sublist
    · simp only [decide_eq_true_eq] at hab hbc ⊢
      omega
    · simp only [Bool.or_eq_true, decide_eq_true_eq]
      omega
  have hfilter := hsub.filter (score · = k)
  rw [List.filter_filter] at hfilter
  simp only [Bool.and_self] at hfilter
  exact (hfilter.eq_of_length (hperm.filter _).length_eq.symm).symm

/-- A ranking is ordered by scores, and among equal scores as before. -/
theorem pairwise_rank {r : ComparedPair RawText → ComparedPair RawText → Prop}
    {pairs : List (ComparedPair RawText)} (h : pairs.Pairwise r) (threshold : Number) : (rank threshold pairs).Pairwise fun a b =>
      b.report.overall < a.report.overall ∨ a.report.overall = b.report.overall ∧ r a b := by
  let chosen := pairs.filter fun pair => !threshold.isAbove pair.report.overall
  have hsorted : (rank threshold pairs).Pairwise fun a b => b.report.overall ≤ a.report.overall :=
    List.pairwise_mergeSort' (fun a b : ComparedPair RawText => b.report.overall ≤ a.report.overall) chosen
  rw [List.pairwise_iff_forall_sublist] at hsorted ⊢
  intro a b hs
  rcases lt_or_eq_of_le (hsorted hs) with hlt | heq
  · exact .inl hlt
  · -- both entries have the score of the first, and the entries of that score are in the old order
    refine .inr ⟨heq.symm, ?_⟩
    have hk : [a, b].Sublist (chosen.filter fun pair => pair.report.overall = a.report.overall) := by
      rw [← filter_mergeSort_of_eq (fun pair : ComparedPair RawText => pair.report.overall)]
      have hboth := hs.filter fun pair => pair.report.overall = a.report.overall
      rwa [List.filter_eq_self.2 (by simp [heq])] at hboth
    exact List.pairwise_pair.1 (h.sublist (hk.trans (List.filter_sublist.trans List.filter_sublist)))

/-- The names of one pair come before those of the other in lexicographic order. -/
def ComparedPair.IsBefore (a b : ComparedPair RawText) : Prop :=
  a.submitter1 < b.submitter1 ∨ a.submitter1 = b.submitter1 ∧ a.submitter2 < b.submitter2

/-- The order of a ranking: a higher score comes first, and equal scores are in the order of the names. -/
def ComparedPair.Precedes (a b : ComparedPair RawText) : Prop :=
  b.report.overall < a.report.overall ∨ a.report.overall = b.report.overall ∧ a.IsBefore b

section Pairs

variable {contents : List (RawText × String)} (h : contents.Pairwise fun a b => a.1 < b.1) (p : Policy)

include h

theorem mem_comparePair {pair : ComparedPair RawText} :
    pair ∈ (allPairs contents).map (comparePair p) ↔ ∃ s₁ s₂ c₁ c₂, (s₁, c₁) ∈ contents ∧ (s₂, c₂) ∈ contents ∧
      s₁ < s₂ ∧ pair = ⟨s₁, s₂, compareTexts p c₁ c₂, c₁, c₂⟩ := by
  have : Std.Asymm fun a b : RawText × String => a.1 < b.1 := ⟨fun _ _ => lt_asymm⟩
  rw [List.mem_map]
  constructor
  · rintro ⟨⟨⟨s₁, c₁⟩, ⟨s₂, c₂⟩⟩, hmem, rfl⟩
    obtain ⟨h₁, h₂, hlt⟩ := (mem_allPairs_of_pairwise h).1 hmem
    exact ⟨s₁, s₂, c₁, c₂, h₁, h₂, hlt, rfl⟩
  · rintro ⟨s₁, s₂, c₁, c₂, h₁, h₂, hlt, rfl⟩
    exact ⟨((s₁, c₁), (s₂, c₂)), (mem_allPairs_of_pairwise h).2 ⟨h₁, h₂, hlt⟩, rfl⟩

theorem pairwise_comparePair : ((allPairs contents).map (comparePair p)).Pairwise ComparedPair.IsBefore := by
  rw [List.pairwise_map]
  refine (pairwise_allPairs h).imp ?_
  rintro ⟨⟨s₁, c₁⟩, ⟨s₂, c₂⟩⟩ ⟨⟨t₁, e₁⟩, ⟨t₂, e₂⟩⟩ (hlt | ⟨he, hlt⟩)
  · exact .inl hlt
  · exact .inr ⟨congrArg Prod.fst he, hlt⟩

end Pairs

/-- Pairs in order of their names are ranked without repeating the names of a pair. -/
theorem nodup_names_rank {pairs : List (ComparedPair RawText)} (h : pairs.Pairwise ComparedPair.IsBefore)
    (threshold : Number) :
    ((rank threshold pairs).map fun pair => (pair.submitter1, pair.submitter2)).Nodup := by
  refine ((List.mergeSort_perm _ _).map _).nodup_iff.2 ?_
  refine List.Nodup.sublist (List.filter_sublist.map _) ?_
  rw [List.Nodup, List.pairwise_map]
  refine h.imp ?_
  rintro a b (hlt | ⟨-, hlt⟩) he
  · exact hlt.ne (congrArg Prod.fst he)
  · exact hlt.ne (congrArg Prod.snd he)

/-- With a threshold that is a number, comparing all contents succeeds. -/
theorem compareAll_eq_ok (p : Policy) {threshold : Json} {least : Number}
    (h : threshold.number? .lowerBound = .ok least) (contents : List (RawText × String)) :
    ∃ log, compareAll (.ok p) threshold contents =
      .ok (rank least ((allPairs contents).map (comparePair p)), log) := by
  unfold compareAll
  cases allPairs contents with
  | nil => exact ⟨[], by simp [rank]⟩
  | cons pair pairs =>
    rw [h]
    exact ⟨_, rfl⟩

end Semblance
