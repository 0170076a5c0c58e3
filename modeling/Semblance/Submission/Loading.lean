import Semblance.Files.Disk
import Semblance.Submission.Limit
import Semblance.Text.Utf8

/-!
# Loading

The files of a submission are read as text, up to a limit in bytes, and put one after the other.  A comment line with
its name goes before each file.  A file that cannot be read or is too large is left out with an error; a submission
whose files are too large together has no content.
-/

namespace Semblance

/-- The size in bytes that is reported for a file or a folder. -/
def FileTree.size (folderSize : Nat) : FileTree → Nat
  | file bytes => bytes.length
  | folder _ => folderSize
  | locked inner => inner.size folderSize

/-- The text of a file, or what is wrong with it. -/
def readSource (d : Disk) (path : RawText) (limit : SizeLimit) : Except Failure (Except RawText String) := do
  let unreadable (e : FileError) : Except RawText String := .error ("Error reading " ++ path ++ s!": {e.message}")
  match d.find path with
  | .error .nullInPath => .error (.files .nullInPath)
  | .error e => return unreadable e
  | .ok found =>
    let limit ← limit.get
    let size := found.size d.host.folderSize
    if limit.isBelow size then return .error (Path.baseName path ++ s!" is {size} bytes (limit {limit.text})")
    else
      match found with
      | .file bytes => return .ok (Text.readBytes bytes)
      | .folder _ => return unreadable (.refused .isFolder path)
      | .locked _ => return unreadable (.refused .denied path)

/-- What loading a submission gives. -/
structure Loaded where
  content : RawText
  /-- The files that were left out, each with the reason. -/
  skipped : List (RawText × RawText)
  /-- What is wrong with all files together. -/
  excess : Option String
  deriving DecidableEq, Repr

/-- All that went wrong, in order. -/
def Loaded.errors (l : Loaded) : List RawText :=
  l.skipped.map (·.2) ++ (l.excess.map RawText.ofString).toList

/-- The log lines on the files that were left out. -/
def Loaded.log (l : Loaded) : List RawText :=
  l.skipped.map fun (path, error) => "DEBUG preprocessor: Skipping " ++ path ++ ": " ++ error

/-- The text of a file under a line with its name. -/
def withHeader (path : RawText) (content : String) : RawText :=
  "// --- " ++ Path.baseName path ++ s!" ---\n{content}\n"

/-- Puts the files of a submission together, given what reading each of them gave. -/
def Loaded.ofOutcomes (limit : Number) (outcomes : List (RawText × Except RawText String)) : Loaded :=
  let texts := outcomes.filterMap fun (path, outcome) => outcome.toOption.map fun content => (path, content)
  let skipped := outcomes.filterMap fun (path, outcome) =>
    match outcome with
    | .ok _ => none
    | .error e => some (path, e)
  let total : Nat := (texts.map fun (_, content) => content.utf8ByteSize).foldl (· + ·) 0
  if limit.isBelow total then ⟨[], skipped, some s!"Submission is {total} bytes (limit {limit.text})"⟩
  else
    let parts := texts.map fun (path, content) => withHeader path content
    ⟨RawText.trimmed (("\n" : RawText).intercalate parts), skipped, none⟩

/-- Reads the files of a submission and puts them together. -/
def loadSubmission (d : Disk) (paths : List RawText) (limit : SizeLimit) : Except Failure Loaded := do
  let outcomes ← paths.mapM fun path => do return (path, ← readSource d path limit)
  return .ofOutcomes (← limit.get) outcomes

end Semblance
