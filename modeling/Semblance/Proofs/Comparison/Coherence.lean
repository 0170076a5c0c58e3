import Semblance.Proofs.Comparison.FastPath

/-!
# Coherent reports

Whichever way a comparison goes, its report fits together: the verdict is the one on the overall score, the weights are
those that the overall score was weighed with and are missing exactly where nothing was weighed, and the explanation
tells the numbers of the report (`isCoherent_compareTexts`).  The weights for texts without marks but with control flow
are never used, because control keywords are marks.
-/

namespace Semblance

variable {a b : String}

/-- Two texts are identical when they are equal up to white space and not blank. -/
def AreIdentical (a b : String) : Prop :=
  Text.normalize a ≠ "" ∧ Text.normalize a = Text.normalize b

instance : Decidable (AreIdentical a b) :=
  inferInstanceAs (Decidable (_ ∧ _))

/-- Why two texts were not scored, for texts of which that is so. -/
def skippedReason (a b : String) : String :=
  if AreIdentical a b then "the inputs are identical, so the phases were not scored"
  else "an input has no tokens, so the phases were not scored"

/-- The parts of a report on two texts fit together. -/
structure Report.IsCoherent (p : Policy) (a b : String) (r : Report) : Prop where
  verdict : r.verdict = .ofScore p.thresholds r.overall
  /-- Nothing is weighed exactly if the texts are identical or one of them has no tokens. -/
  weights_eq_none_iff : r.weights = none ↔ AreIdentical a b ∨ tokenize a = [] ∨ tokenize b = []
  /-- Then all phases have the overall score and one and the same finding. -/
  uniform : r.weights = none → r.overall = (if AreIdentical a b then 100 else 0) ∧
    ∃ finding, ∀ phase ∈ [r.lexical, r.structural, r.controlFlow], phase.score = r.overall ∧ phase.findings = [finding]
  /-- Otherwise the overall score is the score of the phases by the weights. -/
  weighed : ∀ w ∈ r.weights, r.overall = w.score r.lexical.score r.structural.score r.controlFlow.score ∧
    (r.overall, r.verdict) = p.combine r.lexical.score r.structural.score r.controlFlow.score
      (skeleton (tokenize a)).isEmpty (Semblance.controlFlow (tokenize a)).isEmpty
  /-- The adaptive weights tell which signals the first text has. -/
  adaptive : p = .adaptive → ∀ w ∈ r.weights,
    (w = .lexicalOnly ↔ ∀ t ∈ tokenize a, ¬ t.isMark) ∧
      (w = .noFlow ↔ (∃ t ∈ tokenize a, t.isMark) ∧ ∀ t ∈ tokenize a, ¬ t.isControl) ∧
      (w = .base ↔ ∃ t ∈ tokenize a, t.isControl) ∧ w ≠ .noSkeleton
  sharedLines : r.sharedLines =
    if ¬ AreIdentical a b ∧ (tokenize a = [] ∨ tokenize b = []) then [] else Semblance.sharedLines a b
  explanation : r.explanation = some (Explanation.text ⟨r.verdict, r.lexical.score, r.structural.score,
    r.controlFlow.score, r.overall, r.weights, p.thresholds.shown, if r.weights = none then skippedReason a b else ""⟩)
  policy : r.policy = some p.name

/-! ### Routes -/

theorem Route.of_cases (a b : String) :
    (AreIdentical a b ∧ Route.of a b = .identical) ∨
      (¬ AreIdentical a b ∧ (tokenize a = [] ∨ tokenize b = []) ∧
        Route.of a b = .empty (tokenize a).length (tokenize b).length) ∨
      (¬ AreIdentical a b ∧ ¬ (tokenize a = [] ∨ tokenize b = []) ∧
        Route.of a b = .scored (tokenize a) (tokenize b)) := by
  by_cases hid : AreIdentical a b
  · exact .inl ⟨hid, Route.of_eq_identical_iff.2 hid⟩
  · have hne : ¬ (!(Text.normalize a).isEmpty && Text.normalize a = Text.normalize b) = true := by
      simpa [AreIdentical] using hid
    right
    unfold Route.of
    dsimp only
    rw [if_neg hne]
    by_cases hempty : tokenize a = [] ∨ tokenize b = []
    · exact .inl ⟨hid, hempty, if_pos (by simpa using hempty)⟩
    · exact .inr ⟨hid, hempty, if_neg (by simpa using hempty)⟩

theorem Route.of_eq (a b : String) :
    of a b =
      if AreIdentical a b then .identical
      else if tokenize a = [] ∨ tokenize b = [] then .empty (tokenize a).length (tokenize b).length
      else .scored (tokenize a) (tokenize b) := by
  rcases of_cases a b with ⟨hid, h⟩ | ⟨hid, hempty, h⟩ | ⟨hid, hempty, h⟩
  · rw [h, if_pos hid]
  · rw [h, if_neg hid, if_pos hempty]
  · rw [h, if_neg hid, if_neg hempty]

/-! ### Weights of the adaptive policy -/

theorem skeleton_tokenize_eq_empty_iff : skeleton (tokenize a) = "" ↔ ∀ t ∈ tokenize a, ¬ t.isMark := by
  constructor
  · intro h t ht hm
    exact skeleton_ne_empty ht hm (value_ne_empty_of_mem_tokenize ht) h
  · intro h
    rw [skeleton, List.filter_eq_nil_iff.2 h]
    rfl

theorem controlFlow_eq_nil_iff {tokens : List Token} : controlFlow tokens = [] ↔ ∀ t ∈ tokens, ¬ t.isControl := by
  rw [controlFlow, List.map_eq_nil_iff, List.filter_eq_nil_iff]

/-- The weights of the adaptive policy say which of the two signals are there. -/
theorem adaptive_weights_iff (noSkeleton noFlow : Bool) (h : noSkeleton → noFlow) :
    let w := Policy.adaptive.weights noSkeleton noFlow
    (w = .lexicalOnly ↔ noSkeleton) ∧ (w = .noFlow ↔ ¬ noSkeleton ∧ noFlow) ∧ (w = .base ↔ ¬ noFlow) ∧
      w ≠ .noSkeleton := by
  cases noSkeleton <;> cases noFlow
  · decide +kernel
  · decide +kernel
  · exact absurd (h rfl) (by decide)
  · decide +kernel

theorem adaptive_weights_tokenize_iff (a : String) :
    let w := Policy.adaptive.weights (skeleton (tokenize a)).isEmpty (controlFlow (tokenize a)).isEmpty
    (w = .lexicalOnly ↔ ∀ t ∈ tokenize a, ¬ t.isMark) ∧
      (w = .noFlow ↔ (∃ t ∈ tokenize a, t.isMark) ∧ ∀ t ∈ tokenize a, ¬ t.isControl) ∧
      (w = .base ↔ ∃ t ∈ tokenize a, t.isControl) ∧ w ≠ .noSkeleton := by
  have hmarks : (skeleton (tokenize a)).isEmpty ↔ ∀ t ∈ tokenize a, ¬ t.isMark := by
    rw [String.isEmpty_iff, skeleton_tokenize_eq_empty_iff]
  have hflow : (controlFlow (tokenize a)).isEmpty ↔ ∀ t ∈ tokenize a, ¬ t.isControl := by
    rw [List.isEmpty_iff, controlFlow_eq_nil_iff]
  have hsome {q : Token → Prop} : (∃ t ∈ tokenize a, q t) ↔ ¬ ∀ t ∈ tokenize a, ¬ q t := by simp
  have h := adaptive_weights_iff (skeleton (tokenize a)).isEmpty (controlFlow (tokenize a)).isEmpty
    (by simpa using controlFlow_eq_nil_of_skeleton)
  rwa [hmarks, hflow, ← hsome, ← hsome] at h

/-! ### Reports -/

namespace Report

/-- A report without weights is coherent if its score, verdict and reason are those of texts that are not scored. -/
theorem isCoherent_uniform (p : Policy) {score : Int} {verdict : Verdict} (hverdict : verdict = .ofScore p.thresholds score)
    (hnone : AreIdentical a b ∨ tokenize a = [] ∨ tokenize b = [])
    (hscore : score = if AreIdentical a b then 100 else 0) (finding details : String) {lines : List SharedLine}
    (hlines : lines = if AreIdentical a b then Semblance.sharedLines a b else []) :
    (uniform p score verdict finding details (skippedReason a b) lines).IsCoherent p a b where
  verdict := hverdict
  weights_eq_none_iff := iff_of_true rfl hnone
  uniform _ := ⟨hscore, finding, by simp [Report.uniform]⟩
  weighed w hw := by simp [Report.uniform] at hw
  adaptive _ w hw := by simp [Report.uniform] at hw
  sharedLines := by
    refine Eq.trans hlines ?_
    by_cases h : AreIdentical a b
    · rw [if_pos h, if_neg (fun hno => hno.1 h)]
    · rw [if_neg h, if_pos ⟨h, hnone.resolve_left h⟩]
  explanation := rfl
  policy := rfl

theorem isCoherent_scored (p : Policy) (hid : ¬ AreIdentical a b) (hempty : ¬ (tokenize a = [] ∨ tokenize b = [])) :
    (scored p (tokenize a) (tokenize b) (Semblance.sharedLines a b)).IsCoherent p a b where
  verdict := verdict_scored p _ _ _
  weights_eq_none_iff := iff_of_false (by simp [scored]) (not_or.2 ⟨hid, hempty⟩)
  uniform h := by simp [scored] at h
  weighed w hw := by
    obtain rfl := Option.some.inj hw
    exact ⟨overall_scored p _ _ _, rfl⟩
  adaptive hp w hw := by
    subst hp
    obtain rfl := Option.some.inj hw
    exact adaptive_weights_tokenize_iff a
  sharedLines := (if_neg fun h => hempty h.2).symm
  explanation := rfl
  policy := rfl

end Report

/-- The report of a comparison is coherent, whichever route the texts take. -/
theorem isCoherent_compareTexts (p : Policy) (a b : String) : (compareTexts p a b).IsCoherent p a b := by
  unfold compareTexts
  rcases Route.of_cases a b with ⟨hid, hroute⟩ | ⟨hid, hempty, hroute⟩ | ⟨hid, hempty, hroute⟩
  · have hreason : skippedReason a b = "the inputs are identical, so the phases were not scored" := if_pos hid
    rw [hroute, Report.ofRoute, ← hreason]
    exact Report.isCoherent_uniform p (by cases p <;> rfl) (.inl hid) (if_pos hid).symm _ _ (if_pos hid).symm
  · have hreason : skippedReason a b = "an input has no tokens, so the phases were not scored" := if_neg hid
    rw [hroute, Report.ofRoute, ← hreason]
    exact Report.isCoherent_uniform p (by cases p <;> rfl) (.inr hempty) (if_neg hid).symm _ _ (if_neg hid).symm
  · rw [hroute]
    exact Report.isCoherent_scored p hid hempty

end Semblance
