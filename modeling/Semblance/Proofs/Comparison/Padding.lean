import Mathlib.Data.List.Flatten
import Semblance.Phase
import Semblance.Proofs.Similarity.Sublists

/-!
# Padded programs

Tokens that are inserted anywhere into a program insert characters into its skeleton and keywords into its control
flow, and change nothing else of either.  So the structural and the control-flow score of a program and a padded copy
are the plain shares that its signals have of the copy's (`score_of_sublist`).
-/

namespace Semblance

variable {a b : List Token}

/-- Inserted tokens insert characters into the skeleton. -/
theorem sublist_skeleton (h : a.Sublist b) : (skeleton a).toList.Sublist (skeleton b).toList := by
  rw [skeleton, skeleton, String.toList_join, String.toList_join]
  exact ((h.filter Token.isMark).map Token.value).flatMap String.toList

theorem sublist_controlFlow (h : a.Sublist b) : (controlFlow a).Sublist (controlFlow b) :=
  (h.filter Token.isControl).map Token.value

theorem score_structural_of_sublist (h : a.Sublist b) (ha : skeleton a ≠ "") :
    (Phase.structural a b).score = percent (ratio (skeleton a).length (skeleton b).length) := by
  have hsub := sublist_skeleton h
  have hle : (skeleton a).length ≤ (skeleton b).length := by
    simpa only [String.length_toList] using hsub.length_le
  have hb : skeleton b ≠ "" := by
    intro hb
    rw [hb, String.toList_empty, List.sublist_nil] at hsub
    exact ha (String.toList_eq_nil_iff.1 hsub)
  -- what the insertions leave of the longer skeleton is the length of the shorter one
  have hleft : (skeleton b).length - ((skeleton b).length - (skeleton a).length) = (skeleton a).length :=
    Nat.sub_sub_self hle
  simp only [Phase.structural, editDistance_of_sublist hsub, String.length_toList, max_eq_right hle, hleft]
  simp [ha, hb]

theorem score_controlFlow_of_sublist (h : a.Sublist b) (ha : controlFlow a ≠ []) :
    (Phase.controlFlow a b).score = percent (ratio (controlFlow a).length (controlFlow b).length) := by
  have hsub := sublist_controlFlow h
  have hb : controlFlow b ≠ [] := by
    intro hb
    rw [hb, List.sublist_nil] at hsub
    exact ha hsub
  simp only [Phase.controlFlow, commonLength_of_sublist hsub, max_eq_right hsub.length_le]
  simp [ha, hb]

/-- A program and a copy with tokens inserted anywhere: the structural score is the share that the skeleton has of the
skeleton of the copy, and the control-flow score is the share that the control flow has of that of the copy.  The edit
distance, which is the least number of edits (`isLeast_editDistance`), is the number of inserted characters. -/
theorem score_of_sublist (h : a.Sublist b) :
    (skeleton a ≠ "" →
      (Phase.structural a b).score = percent (ratio (skeleton a).length (skeleton b).length)) ∧
    (controlFlow a ≠ [] →
      (Phase.controlFlow a b).score = percent (ratio (controlFlow a).length (controlFlow b).length)) :=
  ⟨score_structural_of_sublist h, score_controlFlow_of_sublist h⟩

theorem score_of_sublist_loop :
    let a : List Token := [⟨.keyword, "if"⟩, ⟨.punctuation, "("⟩, ⟨.identifier, "x"⟩, ⟨.punctuation, ")"⟩]
    let b : List Token := ⟨.keyword, "for"⟩ :: ⟨.operator, "@"⟩ :: a
    a.Sublist b ∧ (Phase.structural a b).score = 57 ∧ (Phase.controlFlow a b).score = 50 := by
  intro a b
  have h : a.Sublist b := (List.sublist_cons_self _ a).trans (List.sublist_cons_self _ _)
  obtain ⟨hs, hc⟩ := score_of_sublist h
  refine ⟨h, ?_, ?_⟩
  · rw [hs (by decide)]
    decide +kernel
  · rw [hc (by decide)]
    decide +kernel

end Semblance
