import Semblance.Text.Quoted

/-!
# File errors

Why an operation on files cannot be done.  Most problems belong to a path, which is told as it was given; a path with
a null character in it is no path at all.
-/

namespace Semblance

/-- What keeps an operation on a path from being done. -/
inductive FileProblem where
  | notFound
  | denied
  | alreadyExists
  | notFolder
  | isFolder
  | nameTooLong
  deriving DecidableEq, Repr

namespace FileProblem

/-- The number of a problem in system messages. -/
def number : FileProblem → Nat
  | notFound => 2
  | denied => 13
  | alreadyExists => 17
  | notFolder => 20
  | isFolder => 21
  | nameTooLong => 36

def text : FileProblem → String
  | notFound => "No such file or directory"
  | denied => "Permission denied"
  | alreadyExists => "File exists"
  | notFolder => "Not a directory"
  | isFolder => "Is a directory"
  | nameTooLong => "File name too long"

end FileProblem

/-- A failed operation on files. -/
inductive FileError where
  | nullInPath
  | refused (problem : FileProblem) (path : RawText)
  deriving DecidableEq, Repr

/-- What is said about a failed operation. -/
def FileError.message : FileError → String
  | nullInPath => "embedded null byte"
  | refused problem path =>
    s!"[Errno {problem.number}] {problem.text}: {RawText.quoted path}"

end Semblance
