import Semblance.Comparison
import Semblance.Request

/-!
# Comparisons on request

A comparison that is asked for with JSON values: both texts have to be strings, and the policy has to be the name of
one.  The first text is looked at first and the policy last.  A score is judged on request by thresholds that are
looked at only when they are needed.
-/

namespace Semblance

/-- The policy that a value names. -/
def Policy.ofJson? (value : Json) : Except RequestError Policy :=
  match value with
  | .string name =>
    match ofName? name with
    | some p => .ok p
    | none => .error (.unknownPolicy value)
  | .array _ | .object _ => .error (.unfit .key value)
  | _ => .error (.unknownPolicy value)

theorem Policy.ofJson?_name (p : Policy) : ofJson? (.string p.name) = .ok p := by
  simp only [ofJson?, ofName?_name]

/-- Compares two texts, given as values. -/
def compareValues (a b policy : Json) : Except RequestError Report := do
  let textA ← a.string? (.text "text_a")
  let textB ← b.string? (.text "text_b")
  let p ← Policy.ofJson? policy
  return compareTexts p textA textB

/-- The verdict on a score by thresholds given as values. -/
def Verdict.ofValues (plagiarized similar : Json) (score : Int) : Except RequestError Verdict := do
  if (← plagiarized.number? .upperBound).isBelow score then return .plagiarized
  else if (← similar.number? .upperBound).isBelow score then return .similar
  else return .original

/-- With integers as thresholds the verdict is that of the thresholds. -/
theorem Verdict.ofValues_ofInt (t : Thresholds) (score : Int) :
    ofValues (.ofInt t.plagiarized) (.ofInt t.similar) score = .ok (ofScore t score) := by
  simp only [ofValues, Json.number?_ofInt, bind, Except.bind, pure, Except.pure, Number.isBelow_whole,
    decide_eq_true_eq, ofScore]
  split
  · rfl
  · split <;> rfl

end Semblance
