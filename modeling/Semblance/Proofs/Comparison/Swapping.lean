import Semblance.Proofs.Comparison.Coherence
import Semblance.Proofs.Similarity.Symmetry

/-!
# Swapped texts

Comparing two texts the other way round takes the same route, scores every phase alike and pairs the same lines.  Only
the weights look at one of the texts: the adaptive policy weighs by the signals of the first text, so the overall
score, the verdict, the weights and the explanation stay the same unless the texts are weighed and only one of them
has a skeleton, or only one of them a control flow (`compareTexts_swap`).
-/

namespace Semblance

/-- The route of two texts that are taken the other way round. -/
def Route.swap : Route → Route
  | identical => identical
  | empty countA countB => empty countB countA
  | scored tokensA tokensB => scored tokensB tokensA

/-- Either both token lists have a skeleton or none has, and the same for control flow. -/
def HaveSameSignals (a b : List Token) : Prop :=
  (skeleton a = "" ↔ skeleton b = "") ∧ (controlFlow a = [] ↔ controlFlow b = [])

/-! ### Routes -/

theorem areIdentical_comm {a b : String} : AreIdentical a b ↔ AreIdentical b a := by
  unfold AreIdentical
  constructor
  · rintro ⟨hne, heq⟩
    exact ⟨heq ▸ hne, heq.symm⟩
  · rintro ⟨hne, heq⟩
    exact ⟨heq ▸ hne, heq.symm⟩

theorem Route.of_swap (a b : String) : of b a = (of a b).swap := by
  have hid : AreIdentical b a ↔ AreIdentical a b := areIdentical_comm
  have hempty : tokenize b = [] ∨ tokenize a = [] ↔ tokenize a = [] ∨ tokenize b = [] := or_comm
  rw [of_eq, of_eq]
  simp only [hid, hempty]
  split_ifs <;> rfl

/-! ### Phases -/

section Phases

variable (a b : List Token)

namespace Phase

theorem score_lexical_comm : (lexical b a).score = (lexical a b).score := by
  unfold lexical
  dsimp only
  rw [windowSize_comm b.length a.length, overlap_comm (distinctWindows _ (signature b)), Bool.or_comm]

theorem score_structural_comm : (structural b a).score = (structural a b).score := by
  unfold structural
  dsimp only
  rw [editDistance_comm (skeleton b).toList, max_comm (skeleton b).toList.length, Bool.or_comm]

theorem score_controlFlow_comm : (controlFlow b a).score = (controlFlow a b).score := by
  unfold controlFlow
  dsimp only
  rw [commonLength_comm (Semblance.controlFlow b), max_comm (Semblance.controlFlow b).length, Bool.or_comm]

end Phase

theorem Policy.phase_scores_comm (p : Policy) :
    (p.lexical b a).score = (p.lexical a b).score ∧ (p.structural b a).score = (p.structural a b).score ∧
      (p.controlFlow b a).score = (p.controlFlow a b).score := by
  cases p with
  | adaptive =>
    exact ⟨Phase.score_lexical_comm a b, Phase.score_structural_comm a b, Phase.score_controlFlow_comm a b⟩
  | legacy =>
    exact ⟨congrArg percent (overlap_comm _ _), congrArg percent (overlap_comm _ _),
      congrArg percent (overlap_comm _ _)⟩

end Phases

/-! ### Weights -/

theorem HaveSameSignals.isEmpty_eq {a b : List Token} (h : HaveSameSignals a b) :
    (skeleton a).isEmpty = (skeleton b).isEmpty ∧ (controlFlow a).isEmpty = (controlFlow b).isEmpty := by
  constructor
  · rw [Bool.eq_iff_iff, String.isEmpty_iff, String.isEmpty_iff]
    exact h.1
  · rw [Bool.eq_iff_iff, List.isEmpty_iff, List.isEmpty_iff]
    exact h.2

/-- The weights of a token list under a policy. -/
def Policy.weightsOf (p : Policy) (tokens : List Token) : Weights :=
  p.weights (skeleton tokens).isEmpty (Semblance.controlFlow tokens).isEmpty

/-- The adaptive weights of two texts agree only if the texts have the same signals. -/
theorem haveSameSignals_of_weightsOf_eq {a b : String}
    (h : Policy.adaptive.weightsOf (tokenize b) = Policy.adaptive.weightsOf (tokenize a)) :
    HaveSameSignals (tokenize a) (tokenize b) := by
  obtain ⟨hmarks, -, hbase, -⟩ := adaptive_weights_tokenize_iff a
  obtain ⟨hmarks', -, hbase', -⟩ := adaptive_weights_tokenize_iff b
  unfold Policy.weightsOf at h
  rw [h] at hmarks' hbase'
  constructor
  · rw [skeleton_tokenize_eq_empty_iff, skeleton_tokenize_eq_empty_iff, ← hmarks, hmarks']
  · rw [controlFlow_eq_nil_iff, controlFlow_eq_nil_iff]
    have hsome := hbase.symm.trans hbase'
    simpa using not_congr hsome

theorem weightsOf_eq_iff {p : Policy} {a b : String} :
    p.weightsOf (tokenize b) = p.weightsOf (tokenize a) ↔
      p = .legacy ∨ HaveSameSignals (tokenize a) (tokenize b) := by
  constructor
  · intro h
    cases p with
    | adaptive => exact .inr (haveSameSignals_of_weightsOf_eq h)
    | legacy => exact .inl rfl
  · rintro (rfl | hsame)
    · rfl
    · obtain ⟨hskeleton, hflow⟩ := hsame.isEmpty_eq
      unfold Policy.weightsOf
      rw [hskeleton, hflow]

/-! ### Reports -/

/-- Two reports say the same as a whole. -/
def Report.AgreesOverall (r r' : Report) : Prop :=
  r.overall = r'.overall ∧ r.verdict = r'.verdict ∧ r.weights = r'.weights ∧ r.explanation = r'.explanation

/-- Token lists that are scored the other way round agree as a whole exactly if the weights do. -/
theorem Report.agreesOverall_scored_iff (p : Policy) (a b : List Token) (lines lines' : List SharedLine) :
    (scored p b a lines').AgreesOverall (scored p a b lines) ↔ p.weightsOf b = p.weightsOf a := by
  obtain ⟨hl, hs, hc⟩ := p.phase_scores_comm a b
  constructor
  · rintro ⟨-, -, hweights, -⟩
    exact Option.some.inj hweights
  · intro h
    have hoverall : (scored p b a lines').overall = (scored p a b lines).overall := by
      have hweighed : (p.weightsOf b).score (p.lexical b a).score (p.structural b a).score (p.controlFlow b a).score =
          (p.weightsOf a).score (p.lexical a b).score (p.structural a b).score (p.controlFlow a b).score := by
        rw [hl, hs, hc, h]
      rw [overall_scored, overall_scored]
      exact hweighed
    have hverdict : (scored p b a lines').verdict = (scored p a b lines).verdict := by
      rw [verdict_scored, verdict_scored, hoverall]
    refine ⟨hoverall, hverdict, congrArg some h, ?_⟩
    show some (Explanation.text ⟨(scored p b a lines').verdict, (p.lexical b a).score, (p.structural b a).score,
        (p.controlFlow b a).score, (scored p b a lines').overall, some (p.weightsOf b), p.thresholds.shown, ""⟩) = _
    rw [hverdict, hoverall, hl, hs, hc, h]
    rfl

/-- Comparing two texts the other way round takes the same route, gives the same three phase scores and exchanges the
sides of the shared lines.  The reports agree as a whole exactly if the policy keeps its weights, or nothing is weighed,
or both texts have the same signals.  The least number of edits (`isLeast_editDistance`) is the same both ways. -/
theorem compareTexts_swap (p : Policy) (a b : String) :
    let r := compareTexts p a b
    let r' := compareTexts p b a
    Route.of b a = (Route.of a b).swap ∧
      (r'.lexical.score = r.lexical.score ∧ r'.structural.score = r.structural.score ∧
        r'.controlFlow.score = r.controlFlow.score) ∧
      r'.sharedLines.Perm (r.sharedLines.map SharedLine.swap) ∧
      (r'.AgreesOverall r ↔ p = .legacy ∨ r.weights = none ∨ HaveSameSignals (tokenize a) (tokenize b)) := by
  intro r r'
  have hroute := Route.of_swap a b
  have hlines := sharedLines_perm_swap a b
  refine ⟨hroute, ?_⟩
  have hr : r = Report.ofRoute p a b (Route.of a b) := rfl
  have hr' : r' = Report.ofRoute p b a (Route.of a b).swap := hroute ▸ rfl
  rcases Route.of_cases a b with ⟨-, hof⟩ | ⟨-, -, hof⟩ | ⟨-, -, hof⟩
  · rw [hr, hr', hof]
    exact ⟨⟨rfl, rfl, rfl⟩, hlines, iff_of_true ⟨rfl, rfl, rfl, rfl⟩ (.inr (.inl rfl))⟩
  · rw [hr, hr', hof]
    exact ⟨⟨rfl, rfl, rfl⟩, .nil, iff_of_true ⟨rfl, rfl, rfl, rfl⟩ (.inr (.inl rfl))⟩
  · rw [hr, hr', hof]
    refine ⟨p.phase_scores_comm (tokenize a) (tokenize b), hlines, ?_⟩
    have hweighed : (Report.scored p (tokenize a) (tokenize b) (sharedLines a b)).weights ≠ none :=
      Option.some_ne_none _
    exact (Report.agreesOverall_scored_iff p _ _ _ _).trans
      (weightsOf_eq_iff.trans (or_congr_right (or_iff_right hweighed).symm))

end Semblance
