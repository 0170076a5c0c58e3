import Semblance.Json
import Semblance.Report

/-!
# Reports as JSON

The JSON view of a report and of its parts.
-/

namespace Semblance

def Phase.toJson (p : Phase) : Json :=
  .object [("score", .ofInt p.score), ("details", .string p.details), ("findings", .ofStrings p.findings)]

def SharedLine.toJson (s : SharedLine) : Json :=
  .object [("lineA", .ofInt s.lineA), ("lineB", .ofInt s.lineB), ("content", .string s.content),
    ("type", .ofString? s.kind)]

def Weights.toJson (w : Weights) : Json :=
  .object [("lexical", .number w.lexical), ("structural", .number w.structural),
    ("controlFlow", .number w.controlFlow)]

def Report.toJson (r : Report) : Json :=
  .object [("overallScore", .ofInt r.overall), ("verdict", .string r.verdict.name), ("lexical", r.lexical.toJson),
    ("structural", r.structural.toJson), ("controlFlow", r.controlFlow.toJson),
    ("matches", .array (r.sharedLines.map SharedLine.toJson)), ("explanation", .ofString? r.explanation),
    ("weights", (r.weights.map Weights.toJson).getD .null), ("strategy", .ofString? r.policy)]

end Semblance
