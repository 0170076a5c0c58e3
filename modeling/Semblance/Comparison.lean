import Semblance.Report.Explanation
import Semblance.Similarity.SharedLines

/-!
# Comparisons

Two texts are compared by one of three routes.  Texts that are equal up to white space, and not blank, are identical
and score `100`; a text without tokens cannot be compared and the score is `0`; all others are scored phase by phase
and weighed by a policy.
-/

namespace Semblance

/-- How a comparison goes. -/
inductive Route where
  | identical
  | empty (countA countB : Nat)
  | scored (tokensA tokensB : List Token)
  deriving DecidableEq, Repr

/-- The route that two texts take. -/
def Route.of (a b : String) : Route :=
  let normal := Text.normalize a
  if !normal.isEmpty && normal = Text.normalize b then .identical
  else
    let tokensA := tokenize a
    let tokensB := tokenize b
    if tokensA.isEmpty || tokensB.isEmpty then .empty tokensA.length tokensB.length
    else .scored tokensA tokensB

namespace Report

/-- A report in which all phases have one score and one finding, and nothing is weighed. -/
def uniform (p : Policy) (score : Int) (verdict : Verdict) (finding details skipped : String)
    (sharedLines : List SharedLine) : Report :=
  let phase : Phase := ⟨score, details, [finding]⟩
  { overall := score
    verdict
    lexical := phase
    structural := phase
    controlFlow := phase
    sharedLines
    explanation := some (Explanation.text ⟨verdict, score, score, score, score, none, p.thresholds.shown, skipped⟩)
    weights := none
    policy := some p.name }

/-- The report on two token lists that are scored and weighed. -/
def scored (p : Policy) (tokensA tokensB : List Token) (sharedLines : List SharedLine) : Report :=
  let lexical := p.lexical tokensA tokensB
  let structural := p.structural tokensA tokensB
  let controlFlow := p.controlFlow tokensA tokensB
  let noSkeleton := (skeleton tokensA).isEmpty
  let noFlow := (Semblance.controlFlow tokensA).isEmpty
  let (overall, verdict) := p.combine lexical.score structural.score controlFlow.score noSkeleton noFlow
  let weights := p.weights noSkeleton noFlow
  { overall, verdict, lexical, structural, controlFlow, sharedLines
    explanation := some <| Explanation.text
      ⟨verdict, lexical.score, structural.score, controlFlow.score, overall, some weights, p.thresholds.shown, ""⟩
    weights := some weights
    policy := some p.name }

theorem overall_scored (p : Policy) (tokensA tokensB : List Token) (sharedLines : List SharedLine) :
    (scored p tokensA tokensB sharedLines).overall =
      (p.weights (skeleton tokensA).isEmpty (Semblance.controlFlow tokensA).isEmpty).score
        (p.lexical tokensA tokensB).score (p.structural tokensA tokensB).score
        (p.controlFlow tokensA tokensB).score := by
  simp only [scored, Policy.combine_eq]

theorem verdict_scored (p : Policy) (tokensA tokensB : List Token) (sharedLines : List SharedLine) :
    (scored p tokensA tokensB sharedLines).verdict =
      .ofScore p.thresholds (scored p tokensA tokensB sharedLines).overall := by
  simp only [scored, Policy.combine_eq]

/-- The report on two texts that take the given route. -/
def ofRoute (p : Policy) (a b : String) : Route → Report
  | .identical =>
    uniform p 100 .plagiarized "identical strings" "Inputs are identical after whitespace normalization."
      "the inputs are identical, so the phases were not scored" (Semblance.sharedLines a b)
  | .empty _ _ =>
    uniform p 0 .original "analysis impossible on empty input" "At least one input has no tokens to compare."
      "an input has no tokens, so the phases were not scored" []
  | .scored tokensA tokensB => scored p tokensA tokensB (Semblance.sharedLines a b)

end Report

/-- Compares two texts. -/
def compareTexts (p : Policy) (a b : String) : Report :=
  Report.ofRoute p a b (.of a b)

/-- Numbers as a parenthesized list. -/
def tupleText (numbers : List Number) : String :=
  "(" ++ ", ".intercalate (numbers.map Number.text) ++ ")"

/-- The line that a comparison leaves in the log. -/
def Route.logLine (report : Report) : Route → String
  | .identical => "DEBUG classifier: Inputs identical after whitespace normalization"
  | .empty countA countB => s!"DEBUG classifier: Empty token stream (A={countA}, B={countB} tokens)"
  | .scored _ _ =>
    let weights := tupleText ((report.weights.map Weights.toList).getD [])
    let verdict := report.verdict.name
    s!"DEBUG classifier: strategy={report.policyText} weights={weights} overall={report.overall} verdict={verdict}"

/-- Compares two texts and says in a log line how it went. -/
def compareLogged (p : Policy) (a b : String) : Report × String :=
  let route := Route.of a b
  let report := Report.ofRoute p a b route
  (report, route.logLine report)

theorem fst_compareLogged (p : Policy) (a b : String) : (compareLogged p a b).1 = compareTexts p a b := by
  simp only [compareLogged, compareTexts]

end Semblance
