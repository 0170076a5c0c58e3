import Semblance.Failure
import Semblance.Files.Disk
import Semblance.Text.Lower

/-!
# Crawling

A crawl walks through a folder and all folders below it from the top down.  The files of a folder come before its
subfolders, both sorted by code point, so the walk does not depend on the order of the entries.  A folder that cannot be
opened is passed over: one that is locked, or whose path is too long to be followed.  Each file is added to the
submission of its submitter: a file in the folder itself is its own submitter, all others belong to the subfolder
through which the walk came to them.
-/

namespace Semblance

/-- The files of one submitter. -/
structure Submission where
  submitter : RawText
  /-- The paths of the source files. -/
  sources : List RawText
  /-- The paths of all files. -/
  files : List RawText
  deriving DecidableEq, Repr

/-- The extensions of source files. -/
def sourceExtensions : List String :=
  [".js", ".jsx", ".ts", ".tsx", ".mjs", ".c", ".h", ".cpp", ".cc", ".java", ".cs", ".go"]

/-- Named things in the order of their names. -/
def sortByName {α : Type} (entries : List (RawText × α)) : List (RawText × α) :=
  entries.mergeSort fun a b => decide (a.1 ≤ b.1)

/-- A folder to which a walk comes: its path, and the names of the files in it. -/
structure Visit where
  folder : RawText
  names : List RawText
  deriving DecidableEq, Repr

namespace FileTree

/-- The names of the files among some entries, sorted. -/
def fileNames (entries : List (RawText × FileTree)) : List RawText :=
  ((entries.filter fun e => !e.2.isFolder).map Prod.fst).mergeSort fun a b => decide (a ≤ b)

mutual

/-- The folders to which a walk comes from a folder that is shown as `shown`, that one first. -/
def visits (shown : RawText) : FileTree → List Visit
  | file _ => []
  | locked _ => []
  | folder entries =>
    if Path.isTooLong shown then []
    else ⟨shown, fileNames entries⟩ :: (sortByName (subvisits shown entries)).flatMap fun (_, visits) => visits

/-- The folders among some entries, each with those to which a walk comes from it. -/
def subvisits (shown : RawText) : List (RawText × FileTree) → List (RawText × List Visit)
  | [] => []
  | (name, t) :: rest =>
    if t.isFolder then (name, t.visits (Path.join shown name)) :: subvisits shown rest else subvisits shown rest

end

mutual

/-- How many folders, each in the one before, a walk tries to open from a folder that is shown as `shown`. -/
def walkDepth (shown : RawText) : FileTree → Nat
  | file _ => 0
  | locked inner => if inner.isFolder then 1 else 0
  | folder entries => if Path.isTooLong shown then 1 else greatestDepth shown entries + 1

/-- The greatest depth of a walk from one of some entries. -/
def greatestDepth (shown : RawText) : List (RawText × FileTree) → Nat
  | [] => 0
  | (name, t) :: rest => max (t.walkDepth (Path.join shown name)) (greatestDepth shown rest)

end

end FileTree

/-- Whether a name has one of the given lower-case extensions, up to its own case. -/
def hasExtension (extensions : List String) (name : RawText) : Bool :=
  match (Path.extension name).decoded with
  | .ok extension => extensions.contains (Text.lower extension)
  | .error _ => false

/-- The submitter of a file, given the path from the root to the folder in which it lies. -/
def submitterOf (way name : RawText) : RawText :=
  if way = Path.dot then name else (Path.pieces way).headD []

/-- Adds a file to the submission of a submitter, or a new submission with it if the submitter has none yet. -/
def credit (submitter path : RawText) (isSource : Bool) : List Submission → List Submission
  | [] => [⟨submitter, if isSource then [path] else [], [path]⟩]
  | s :: rest =>
    if s.submitter = submitter then
      ⟨s.submitter, s.sources ++ (if isSource then [path] else []), s.files ++ [path]⟩ :: rest
    else s :: credit submitter path isSource rest

/-- Adds the files of a folder to which a walk comes from `root`. -/
def creditVisit (working : List RawText) (root : RawText) (chosen : List String) (found : List Submission)
    (v : Visit) : List Submission :=
  let way := Path.relative working v.folder root
  v.names.foldl (fun found name =>
    credit (submitterOf way name) (Path.join v.folder name) (hasExtension chosen name) found) found

/-- The lower-case extensions of source files, those of `extensions` if there are any. -/
def chosenExtensions (extensions : List String) : List String :=
  (if extensions.isEmpty then sourceExtensions else extensions).map Text.lower

/-- The submissions below a path; none if the path leads to no folder. -/
def crawl (d : Disk) (root : RawText) (extensions : List String) : List Submission :=
  match d.find root with
  | .ok t => (t.visits root).foldl (creditVisit d.working root (chosenExtensions extensions)) []
  | .error _ => []

/-- Whether a walk from a path would have to go through more folders, each in the one before, than it can. -/
def isTooDeep (d : Disk) (root : RawText) : Bool :=
  match d.host.walkLimit, d.find root with
  | some limit, .ok t => decide (limit < t.walkDepth root)
  | _, _ => false

/-- The submissions below a path, unless the path has a null character or the walk goes too deep. -/
def crawl? (d : Disk) (root : RawText) (extensions : List String) : Except Failure (List Submission) :=
  if Path.hasNull root then .error (.files .nullInPath)
  else if isTooDeep d root then .error .walkTooDeep
  else .ok (crawl d root extensions)

end Semblance
