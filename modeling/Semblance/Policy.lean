import Semblance.Number
import Semblance.Phase
import Semblance.Verdict

/-!
# Scoring policies

A policy says how the three signals are scored, how their scores are weighted, and by which thresholds the weighted
score is judged.  The adaptive policy scores signals with respect to order and moves the weight of a signal that the
first text lacks to the others; the legacy policy scores sets and keeps its weights.
-/

namespace Semblance

/-- The weights of the three phases. -/
structure Weights where
  lexical : Number
  structural : Number
  controlFlow : Number
  deriving DecidableEq, Repr

namespace Weights

/-- Weights that are the binary numbers closest to the given ones. -/
def ofRat (lexical structural controlFlow : Rat) : Weights :=
  ⟨.real (.finite (nearest lexical)), .real (.finite (nearest structural)), .real (.finite (nearest controlFlow))⟩

def base : Weights := ofRat (1 / 2) (1 / 4) (1 / 4)

def lexicalOnly : Weights := ofRat 1 0 0

def noSkeleton : Weights := ofRat (3 / 5) 0 (2 / 5)

def noFlow : Weights := ofRat (3 / 5) (2 / 5) 0

def legacy : Weights := ofRat (2 / 5) (7 / 20) (1 / 4)

/-- The weights for three phases that move the weight of a signal which the first text lacks to the others. -/
def select : (noSkeleton noFlow : Bool) → Weights
  | true, true => .lexicalOnly
  | true, false => .noSkeleton
  | false, true => .noFlow
  | false, false => .base

/-- The weighted sum of three scores, added from the left. -/
def sum (w : Weights) (lexical structural controlFlow : Int) : Number :=
  (((Number.whole lexical).mul w.lexical).add ((Number.whole structural).mul w.structural)).add
    ((Number.whole controlFlow).mul w.controlFlow)

/-- The weighted sum of three scores, rounded to an integer. -/
def score (w : Weights) (lexical structural controlFlow : Int) : Int :=
  roundHalfUp (w.sum lexical structural controlFlow).value

/-- The three weights in order. -/
def toList (w : Weights) : List Number :=
  [w.lexical, w.structural, w.controlFlow]

/-- The weighted score by checked steps: a score or a sum may be out of range, and the sum may have no value. -/
def score? (w : Weights) (lexical structural controlFlow : Int) : Except ArithmeticError Int := do
  let words ← (Number.whole lexical).mul? w.lexical
  let marks ← (Number.whole structural).mul? w.structural
  let both ← words.add? marks
  let flow ← (Number.whole controlFlow).mul? w.controlFlow
  (← both.add? flow).roundHalfUp?

end Weights

/-- A way of scoring. -/
inductive Policy where
  | adaptive
  | legacy
  deriving DecidableEq, Repr, Inhabited

namespace Policy

/-- The policies, by name. -/
def all : List Policy :=
  [adaptive, legacy]

def name : Policy → String
  | adaptive => "adaptive"
  | legacy => "legacy"

def ofName? (name : String) : Option Policy :=
  all.find? (·.name = name)

theorem ofName?_name (p : Policy) : ofName? p.name = some p := by
  cases p <;> decide

def lexical : Policy → List Token → List Token → Phase
  | adaptive => Phase.lexical
  | legacy => Phase.lexicalSet

def structural : Policy → List Token → List Token → Phase
  | adaptive => Phase.structural
  | legacy => Phase.structuralSet

def controlFlow : Policy → List Token → List Token → Phase
  | adaptive => Phase.controlFlow
  | legacy => Phase.controlFlowSet

/-- The weights, given whether the first text has no marks and no control flow. -/
def weights : Policy → (noSkeleton noFlow : Bool) → Weights
  | adaptive => Weights.select
  | legacy => fun _ _ => Weights.legacy

def thresholds : Policy → Thresholds
  | adaptive => .adaptive
  | legacy => .legacy

/-- The overall score of three phase scores, and the verdict on it, with weights that depend on the signals. -/
def combineAdaptive (lexical structural controlFlow : Int) (noSkeleton noFlow : Bool) : Int × Verdict :=
  let overall := (Weights.select noSkeleton noFlow).score lexical structural controlFlow
  (overall, .ofScore .adaptive overall)

/-- The overall score of three phase scores, and the verdict on it, with weights that are always the same. -/
def combineLegacy (lexical structural controlFlow : Int) (_noSkeleton _noFlow : Bool) : Int × Verdict :=
  let overall := Weights.legacy.score lexical structural controlFlow
  (overall, .ofScore .legacy overall)

/-- The overall score of three phase scores, and the verdict on it. -/
def combine : Policy → (lexical structural controlFlow : Int) → (noSkeleton noFlow : Bool) → Int × Verdict
  | adaptive => combineAdaptive
  | legacy => combineLegacy

/-- A policy combines scores by its own weights and thresholds. -/
theorem combine_eq (p : Policy) (lexical structural controlFlow : Int) (noSkeleton noFlow : Bool) :
    p.combine lexical structural controlFlow noSkeleton noFlow =
      let overall := (p.weights noSkeleton noFlow).score lexical structural controlFlow
      (overall, .ofScore p.thresholds overall) := by
  cases p <;> rfl

/-- The overall score and verdict with weights that depend on the signals, unless a score is out of range. -/
def combineAdaptive? (lexical structural controlFlow : Int) (noSkeleton noFlow : Bool) :
    Except ArithmeticError (Int × Verdict) := do
  let overall ← (Weights.select noSkeleton noFlow).score? lexical structural controlFlow
  return (overall, .ofScore .adaptive overall)

/-- The overall score and verdict with weights that are always the same, unless a score is out of range. -/
def combineLegacy? (lexical structural controlFlow : Int) (_noSkeleton _noFlow : Bool) :
    Except ArithmeticError (Int × Verdict) := do
  let overall ← Weights.legacy.score? lexical structural controlFlow
  return (overall, .ofScore .legacy overall)

/-- The overall score and verdict, unless a score is out of range. -/
def combine? : Policy → (lexical structural controlFlow : Int) → (noSkeleton noFlow : Bool) →
    Except ArithmeticError (Int × Verdict)
  | adaptive => combineAdaptive?
  | legacy => combineLegacy?

theorem combine?_eq (p : Policy) (lexical structural controlFlow : Int) (noSkeleton noFlow : Bool) :
    p.combine? lexical structural controlFlow noSkeleton noFlow = (do
      let overall ← (p.weights noSkeleton noFlow).score? lexical structural controlFlow
      return (overall, .ofScore p.thresholds overall)) := by
  cases p <;> rfl

end Policy

end Semblance
