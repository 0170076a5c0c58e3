/-!
# Verdicts

A score is judged by two thresholds: only a score above a threshold gets the verdict of that threshold.
-/

namespace Semblance

/-- What a comparison says about two texts. -/
inductive Verdict where
  | original
  | similar
  | plagiarized
  deriving DecidableEq, Repr, Inhabited

/-- The scores above which two texts are called plagiarized or similar. -/
structure Thresholds where
  plagiarized : Int
  similar : Int
  deriving DecidableEq, Repr

def Thresholds.adaptive : Thresholds :=
  ⟨80, 40⟩

def Thresholds.legacy : Thresholds :=
  ⟨75, 45⟩

namespace Verdict

/-- The verdicts, from the weakest to the strongest. -/
def all : List Verdict :=
  [original, similar, plagiarized]

/-- The name of a verdict. -/
def name : Verdict → String
  | original => "ORIGINAL"
  | similar => "SIMILAR"
  | plagiarized => "PLAGIARIZED"

/-- The verdict with the given name. -/
def ofName? (name : String) : Option Verdict :=
  all.find? (·.name = name)

/-- The verdict on a score. -/
def ofScore (t : Thresholds) (score : Int) : Verdict :=
  if t.plagiarized < score then plagiarized
  else if t.similar < score then similar
  else original

theorem ofName?_name (v : Verdict) : ofName? v.name = some v := by
  cases v <;> decide

end Verdict

end Semblance
