import Semblance.Files.FileError
import Semblance.Outline
import Semblance.Request

/-!
# Failures

Why an operation stops without a result: it was asked for with a value that does not suit it, a file operation in it
failed, a text in it cannot be encoded, a line of it cannot be printed, or it went deeper than it can, through folders
or through an outline.
-/

namespace Semblance

/-- Why an operation stops. -/
inductive Failure where
  | request (e : RequestError)
  | files (e : FileError)
  | encoding (e : StrayRun)
  | output (reason : String)
  | outline (e : OutlineError)
  | walkTooDeep

/-- What is said about an operation that stops. -/
def Failure.message : Failure → String
  | request e => e.message
  | files e => e.message
  | encoding e => e.message
  | output reason => reason
  | outline e => e.message
  | walkTooDeep => "maximum recursion depth exceeded"

end Semblance
