import Semblance.Files.FileError
import Semblance.Files.Path
import Semblance.Files.Place

/-!
# Disks

A disk is a file tree with a working folder, from which paths start that do not start from the top, on a host, which
brings in what differs from machine to machine.  Each operation looks its path up name by name; one that cannot be done
says why.  Nothing can be looked up in a locked folder, and a locked file can be neither read nor written.  An operation
that makes several folders keeps those that it has made when it stops.
-/

namespace Semblance

/-- What a program meets with besides files. -/
structure Host where
  /-- The size in bytes that is reported for a folder. -/
  folderSize : Nat := 4096
  /-- How many folders, each in the one before, a walk can go through; any number if there is no limit. -/
  walkLimit : Option Nat := none
  /-- What is said about a line that cannot be printed, if the output does not take it. -/
  refusal? : RawText → Option String := fun _ => none
  deriving Inhabited

/-- A file tree on a host. -/
structure Disk where
  tree : FileTree
  /-- The names that lead from the top to the working folder. -/
  working : List RawText := []
  host : Host := {}
  deriving Inhabited

namespace Disk

/-- Follows pieces of a path from a place: empty pieces and single dots stay where they are, two dots go back to the
folder above.  Each piece needs a folder to start from, and all but empty ones need one that is not locked. -/
def follow (p : Place) : List RawText → Except FileProblem Place
  | [] => .ok p
  | piece :: rest =>
    match p.here with
    | .file _ => .error .notFolder
    | .locked inner =>
      if !inner.isFolder then .error .notFolder
      else if piece.isEmpty then follow p rest
      else .error .denied
    | .folder _ =>
      if piece.isEmpty || piece = Path.dot then follow p rest
      else if piece = Path.dots then follow p.up rest
      else if Path.isNameTooLong piece then .error .nameTooLong
      else
        match p.down? piece with
        | some next => follow next rest
        | none => .error .notFound

/-- The place from which a path starts.  The empty path leads nowhere. -/
def start (d : Disk) (path : RawText) : Except FileProblem Place :=
  if path.isEmpty then .error .notFound
  else if Path.isTooLong path then .error .nameTooLong
  else
    let top : Place := ⟨d.tree, []⟩
    if Path.isAbsolute path then .ok top
    else
      match top.along? d.working with
      | some working => .ok working
      | none => .error .notFound

/-- The place to which a path leads. -/
def locate (d : Disk) (path : RawText) : Except FileProblem Place := do
  follow (← d.start path) (Path.pieces path)

/-- The names of the folder in which the last name of a path is looked up, and the entries of that folder. -/
def surroundings (d : Disk) (path : RawText) : Except FileProblem (List RawText × List (RawText × FileTree)) := do
  let place ← follow (← d.start path) (Path.part path).before
  match place.here with
  | .folder entries => .ok (place.names, entries)
  | .locked inner => .error (if inner.isFolder then .denied else .notFolder)
  | .file _ => .error .notFolder

/-- The names at which a file can be written under a path: the last name may not be a folder's, and no slash may
follow it. -/
def writable (d : Disk) (path : RawText) : Except FileProblem (List RawText) := do
  let (names, entries) ← d.surroundings path
  let p := Path.part path
  if !p.isName || p.isSlashed then .error .isFolder
  else if Path.isNameTooLong p.last then .error .nameTooLong
  else
    match entries.lookup p.last with
    | some (.folder _) => .error .isFolder
    | some (.locked inner) => .error (if inner.isFolder then .isFolder else .denied)
    | _ => .ok (names ++ [p.last])

/-- The names at which a folder can be made under a path: the last name may not be in use. -/
def vacant (d : Disk) (path : RawText) : Except FileProblem (List RawText) := do
  let (names, entries) ← d.surroundings path
  let p := Path.part path
  if !p.isName then .error .alreadyExists
  else if Path.isNameTooLong p.last then .error .nameTooLong
  else if (entries.lookup p.last).isSome then .error .alreadyExists
  else .ok (names ++ [p.last])

/-- The outcome of an operation on a path.  A path with a null character is refused before anything is looked up. -/
def checked {α : Type} (path : RawText) (outcome : Except FileProblem α) : Except FileError α :=
  if Path.hasNull path then .error .nullInPath else outcome.mapError (.refused · path)

/-- The file or folder at a path. -/
def find (d : Disk) (path : RawText) : Except FileError FileTree :=
  checked path ((d.locate path).map (·.here))

/-- The bytes of the file at a path. -/
def read (d : Disk) (path : RawText) : Except FileError (List UInt8) := do
  match ← d.find path with
  | .file bytes => .ok bytes
  | .folder _ => .error (.refused .isFolder path)
  | .locked _ => .error (.refused .denied path)

/-- Whether a path leads anywhere. -/
def exists? (d : Disk) (path : RawText) : Bool :=
  (d.find path).toOption.isSome

/-- Whether a path leads to a folder. -/
def isFolder (d : Disk) (path : RawText) : Bool :=
  match d.find path with
  | .ok found => found.isFolder
  | .error _ => false

/-- The disk with `new` at a place. -/
def put (d : Disk) (new : FileTree) (names : List RawText) : Disk :=
  { d with tree := d.tree.put new names }

/-- Writes a file. -/
def write (d : Disk) (path : RawText) (bytes : List UInt8) : Except FileError Disk :=
  (checked path (d.writable path)).map (d.put (.file bytes))

/-- Removes a file. -/
def remove (d : Disk) (path : RawText) : Except FileError Disk := do
  let place ← checked path (d.locate path)
  if place.here.isFolder then .error (.refused .isFolder path)
  else return { d with tree := d.tree.erase place.names }

/-- Makes one folder. -/
def makeFolder (d : Disk) (path : RawText) : Except FileError Disk :=
  (checked path (d.vacant path)).map (d.put (.folder []))

/-- Makes one folder, unless it is there already. -/
def ensureFolder (d : Disk) (path : RawText) : Except FileError Unit × Disk :=
  match d.makeFolder path with
  | .ok made => (.ok (), made)
  | .error e => (if d.isFolder path then .ok () else .error e, d)

/-- Makes the folder at `path` after those on the way to it that are missing; the path has the given pieces in
reverse, up to the slashes at its end.  That a folder on the way cannot be made because its name is in use shows only
later, and a path that ends in a single dot is done with the folder before the dot. -/
def ensureFolders (d : Disk) (path : RawText) (reversed : List RawText) : Except FileError Unit × Disk :=
  match reversed with
  | [] => d.ensureFolder path
  | last :: before =>
    let above := before.dropWhile List.isEmpty
    let way := Path.ofPieces above.reverse
    if above.isEmpty || d.exists? way then d.ensureFolder path
    else
      match d.ensureFolders way above with
      | (.ok (), made) | (.error (.refused .alreadyExists _), made) =>
        if last = Path.dot then (.ok (), made) else made.ensureFolder path
      | (.error e, made) => (.error e, made)
  termination_by reversed.length
  decreasing_by
    simpa only [List.length_cons] using Nat.lt_succ_of_le (List.dropWhile_suffix _).length_le

/-- Makes the folder at a path, with the folders on the way to it. -/
def makeFolders (d : Disk) (path : RawText) : Except FileError Unit × Disk :=
  d.ensureFolders path ((Path.pieces path).reverse.dropWhile List.isEmpty)

/-- Makes the folders in which a path lies; none for a path that is one name. -/
def makeParents (d : Disk) (path : RawText) : Except FileError Unit × Disk :=
  let folder := Path.folder path
  if folder.isEmpty then (.ok (), d) else d.makeFolders folder

/-- Writes a file, after the folders in which it lies. -/
def writeDeep (d : Disk) (path : RawText) (bytes : List UInt8) : Except FileError Unit × Disk :=
  match d.makeParents path with
  | (.error e, made) => (.error e, made)
  | (.ok (), made) =>
    match made.write path bytes with
    | .ok written => (.ok (), written)
    | .error e => (.error e, made)

end Disk

end Semblance
