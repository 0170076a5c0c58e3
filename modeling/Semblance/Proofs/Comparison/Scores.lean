import Semblance.Comparison.Request
import Semblance.Proofs.Comparison.Weighing
import Semblance.Proofs.Similarity.Bounds

/-!
# Scores are percentages

Every signal is scored by the share that a part has of a whole, so all phase scores lie between `0` and `100`, and with
them the weighted score.  A comparison of two texts under a known policy always gives a report, and the scores of the
report are such scores (`compareValues_scores`).
-/

namespace Semblance

/-- Two word lists overlap by a percentage. -/
theorem percent_overlap_mem_Icc (a b : List String) : percent (overlap a b) ∈ Set.Icc 0 100 :=
  percent_ratio_mem_Icc (length_shared_le a b)

/-! ### Phases -/

variable (a b : List Token)

namespace Phase

theorem score_lexical_mem_Icc : (lexical a b).score ∈ Set.Icc 0 100 := by
  unfold lexical
  dsimp only
  split
  · decide
  · exact percent_overlap_mem_Icc _ _

/-- The edit distance of two skeletons is no more than the length that it is taken from, so the difference is exact. -/
theorem score_structural_eq (ha : skeleton a ≠ "") (hb : skeleton b ≠ "") :
    let distance := editDistance (skeleton a).toList (skeleton b).toList
    let longer := max (skeleton a).toList.length (skeleton b).toList.length
    distance ≤ longer ∧ 0 < longer ∧
      (structural a b).score = percent (nearest (((longer : Rat) - distance) / longer)) := by
  intro distance longer
  have hle : distance ≤ longer := editDistance_le_max _ _
  have hne : (skeleton a).toList ≠ [] := by simpa using ha
  have hpos : 0 < longer := (List.length_pos_of_ne_nil hne).trans_le (le_max_left _ _)
  refine ⟨hle, hpos, ?_⟩
  have hscore : (structural a b).score = percent (ratio (longer - distance) longer) := by
    simp [structural, ha, hb, longer, distance]
  rw [hscore, ratio, if_neg hpos.ne', Nat.cast_sub hle]

theorem score_structural_mem_Icc : (structural a b).score ∈ Set.Icc 0 100 := by
  by_cases h : skeleton a = "" ∨ skeleton b = ""
  · have hzero : (structural a b).score = 0 := by
      rcases h with h | h <;> simp [structural, h]
    rw [hzero]
    decide
  · obtain ⟨ha, hb⟩ := not_or.1 h
    obtain ⟨hle, hpos, hscore⟩ := score_structural_eq a b ha hb
    have hle' : ((editDistance (skeleton a).toList (skeleton b).toList : Nat) : Rat) ≤
        (max (skeleton a).toList.length (skeleton b).toList.length : Nat) := by exact_mod_cast hle
    rw [hscore]
    exact percent_nearest_mem_Icc (div_nonneg (sub_nonneg.2 hle') (Nat.cast_nonneg _))
      (div_le_one_of_le₀ (sub_le_self _ (Nat.cast_nonneg _)) (Nat.cast_nonneg _))

theorem score_controlFlow_mem_Icc : (controlFlow a b).score ∈ Set.Icc 0 100 := by
  unfold controlFlow
  dsimp only
  split
  · decide
  · exact percent_ratio_mem_Icc ((commonLength_le_left _ _).trans (le_max_left _ _))

end Phase

/-- Whatever the policy, the three signals of two token lists are scored from `0` to `100`. -/
theorem Policy.phase_scores_mem_Icc (p : Policy) :
    (p.lexical a b).score ∈ Set.Icc 0 100 ∧ (p.structural a b).score ∈ Set.Icc 0 100 ∧
      (p.controlFlow a b).score ∈ Set.Icc 0 100 := by
  cases p with
  | adaptive =>
    exact ⟨Phase.score_lexical_mem_Icc a b, Phase.score_structural_mem_Icc a b, Phase.score_controlFlow_mem_Icc a b⟩
  | legacy => exact ⟨percent_overlap_mem_Icc _ _, percent_overlap_mem_Icc _ _, percent_overlap_mem_Icc _ _⟩

/-! ### Reports -/

/-- A report has percentages as scores. -/
structure Report.HasPercentages (r : Report) : Prop where
  overall : r.overall ∈ Set.Icc 0 100
  lexical : r.lexical.score ∈ Set.Icc 0 100
  structural : r.structural.score ∈ Set.Icc 0 100
  controlFlow : r.controlFlow.score ∈ Set.Icc 0 100

theorem Report.hasPercentages_uniform (p : Policy) {score : Int} (h : score ∈ Set.Icc 0 100) (verdict : Verdict)
    (finding details skipped : String) (lines : List SharedLine) :
    (uniform p score verdict finding details skipped lines).HasPercentages :=
  ⟨h, h, h, h⟩

theorem Report.hasPercentages_scored (p : Policy) (lines : List SharedLine) :
    (scored p a b lines).HasPercentages := by
  obtain ⟨hl, hs, hc⟩ := p.phase_scores_mem_Icc a b
  have hoverall : (scored p a b lines).overall ∈ Set.Icc 0 100 := by
    rw [overall_scored]
    exact p.score_mem_Icc _ _ hl hs hc
  exact ⟨hoverall, hl, hs, hc⟩

/-- A comparison of two texts under a policy gives a report with percentages as scores, and weighing its phase scores
by checked steps gives what weighing them gives.  The structural score is taken from the least number of edits
(`isLeast_editDistance`). -/
theorem compareValues_scores (p : Policy) (a b : String) :
    let r := compareTexts p a b
    compareValues (.string a) (.string b) (.string p.name) = .ok r ∧ r.HasPercentages ∧
      ∀ noSkeleton noFlow, p.combine? r.lexical.score r.structural.score r.controlFlow.score noSkeleton noFlow =
        .ok (p.combine r.lexical.score r.structural.score r.controlFlow.score noSkeleton noFlow) := by
  intro r
  have hvalues : compareValues (.string a) (.string b) (.string p.name) = .ok r := by
    simp only [compareValues, Json.string?_string, Policy.ofJson?_name, bind, Except.bind, pure, Except.pure, r]
  have hr : r.HasPercentages := by
    unfold r compareTexts
    cases Route.of a b with
    | identical => exact Report.hasPercentages_uniform p (by decide) _ _ _ _ _
    | empty countA countB => exact Report.hasPercentages_uniform p (by decide) _ _ _ _ _
    | scored tokensA tokensB => exact Report.hasPercentages_scored tokensA tokensB p _
  exact ⟨hvalues, hr, fun noSkeleton noFlow =>
    p.combine?_eq_ok noSkeleton noFlow hr.lexical hr.structural hr.controlFlow⟩

end Semblance
