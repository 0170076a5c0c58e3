import Semblance.Policy

/-!
# Explanations

The text that says in words what the scores of a comparison mean: the verdict, a sentence on each phase, how the
overall score was composed, and the thresholds.
-/

namespace Semblance

/-- The texts of the two thresholds. -/
structure ShownThresholds where
  plagiarized : String
  similar : String
  deriving DecidableEq, Repr

/-- The texts of thresholds. -/
def Thresholds.shown (t : Thresholds) : ShownThresholds :=
  ⟨toString t.plagiarized, toString t.similar⟩

/-- What an explanation is written from. -/
structure Explanation where
  verdict : Verdict
  lexical : Int
  structural : Int
  controlFlow : Int
  overall : Int
  weights : Option Weights
  thresholds : ShownThresholds
  /-- Why nothing was weighed, for an explanation without weights. -/
  skipped : String

namespace Explanation

/-- The sentence on a verdict. -/
def summary : Verdict → String
  | .plagiarized =>
    "The submitted code exhibits substantial similarity to the reference implementation across multiple " ++
      "heuristic dimensions."
  | .similar =>
    "The submitted code demonstrates partial overlap with the reference implementation. Further manual review " ++
      "is recommended."
  | .original =>
    "The submitted code appears to be independently authored with minimal structural overlap to the reference " ++
      "implementation."

/-- The sentence that suits a phase score: one for scores above `70`, one for scores above `40`, one for the
others. -/
def graded (score : Int) (high moderate low : String) : String :=
  if 70 < score then high else if 40 < score then moderate else low

/-- The section on the three phases. -/
def phaseLines (e : Explanation) : List String :=
  [ s!"**Lexical Token Similarity: {e.lexical}%**",
    graded e.lexical
      "- High token overlap detected. The code shares long runs of the same keywords and token kinds."
      "- Moderate token overlap observed. Some token sequences are shared between implementations."
      "- Low token overlap. The implementations use distinct token sequences.",
    "",
    s!"**Structural Skeleton Similarity: {e.structural}%**",
    graded e.structural
      ("- Keyword and punctuation patterns are highly congruent. Block structures and statement organization " ++
        "follow similar patterns.")
      "- Partial structural alignment detected. Some block nesting and statement patterns are comparable."
      ("- Divergent structural organization. The code architectures differ significantly in block " ++
        "composition."),
    "",
    s!"**Control Flow Similarity: {e.controlFlow}%**",
    graded e.controlFlow
      ("- Control keyword sequences exhibit strong correlation. Branching logic and iteration patterns are " ++
        "nearly identical.")
      ("- Some control flow patterns are shared. The implementations follow comparable execution paths in " ++
        "certain regions.")
      "- Distinct control flow signatures. The programs follow different execution trajectories.",
    "" ]

/-- The section on the weights. -/
def weightLines (e : Explanation) : List String :=
  match e.weights with
  | none =>
    let reason := if e.skipped.isEmpty then "no weighted combination was computed" else e.skipped
    [s!"Weighting skipped: {reason}."]
  | some w =>
    [ "The composite metric is computed as:",
      s!"- Lexical analysis: {percent w.lexical.value}% weighting",
      s!"- Structural skeleton: {percent w.structural.value}% weighting",
      s!"- Control flow heuristic: {percent w.controlFlow.value}% weighting" ]

/-- The lines of an explanation. -/
def lines (e : Explanation) : List String :=
  let high := e.thresholds.plagiarized
  let low := e.thresholds.similar
  [s!"## Classification: {e.verdict.name}", "", summary e.verdict, "", "### Heuristic Analysis", ""] ++
    e.phaseLines ++
    ["### Weighted Aggregation", "", s!"Final similarity score: **{e.overall}%**", ""] ++
    e.weightLines ++
    ["", s!"Thresholds: >{high}% = PLAGIARIZED, >{low}% = SIMILAR, ≤{low}% = ORIGINAL"]

/-- The text of an explanation. -/
def text (e : Explanation) : String :=
  "\n".intercalate e.lines

/-- The text of an explanation, unless a weight has no integer percentage. -/
def text? (e : Explanation) : Except ArithmeticError String := do
  for w in (e.weights.map Weights.toList).getD [] do
    let _ ← w.percent?
  return e.text

end Explanation

end Semblance
