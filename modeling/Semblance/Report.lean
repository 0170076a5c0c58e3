import Semblance.Policy

/-!
# Reports

The result of a comparison: an overall score with its verdict, the three phases behind it, the lines that both texts
share, a written explanation, and the weights, which are absent when the outcome was plain without weighing.  A
report that was not made by a comparison may lack the explanation, the name of the policy and the kinds of the lines.
-/

namespace Semblance

/-- A line that occurs in both texts, with its line numbers counted from one. -/
structure SharedLine where
  lineA : Int
  lineB : Int
  content : String
  kind : Option String
  deriving DecidableEq, Repr

/-- The outcome of a comparison. -/
structure Report where
  overall : Int
  verdict : Verdict
  lexical : Phase
  structural : Phase
  controlFlow : Phase
  sharedLines : List SharedLine
  explanation : Option String
  weights : Option Weights
  policy : Option String
  deriving DecidableEq, Repr

/-- The phases of a report with their labels. -/
def Report.phases (r : Report) : List (String × Phase) :=
  [("Lexical", r.lexical), ("Structural", r.structural), ("Control Flow", r.controlFlow)]

/-- The name of the policy, as it is shown. -/
def Report.policyText (r : Report) : String :=
  r.policy.getD "None"

end Semblance
