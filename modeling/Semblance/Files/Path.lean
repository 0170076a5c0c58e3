import Semblance.Text.Raw

/-!
# Paths

A path is a text of names with slashes between them.  This module takes paths apart without looking at any files.
Single dots stay where they are and two dots go back; a path that starts with a slash starts from the top.
-/

namespace Semblance.Path

/-- What stands between the names of a path. -/
def slash : RawChar := '/'

/-- The name that stays where it is. -/
def dot : RawText := "."

/-- The name that goes back. -/
def dots : RawText := ".."

@[simp] theorem dot_ne_nil : dot ≠ [] := by decide

@[simp] theorem dots_ne_nil : dots ≠ [] := by decide

@[simp] theorem dots_ne_dot : dots ≠ dot := by decide

/-- The pieces of a text between slashes. -/
def pieces (path : RawText) : List RawText :=
  path.splitOn slash

/-- A path from its pieces. -/
def ofPieces (pieces : List RawText) : RawText :=
  [slash].intercalate pieces

/-- Whether a path starts from the top. -/
def isAbsolute (path : RawText) : Bool :=
  path.head? = some slash

/-- Paths of more than `4095` bytes lead nowhere. -/
def isTooLong (path : RawText) : Bool :=
  decide (4095 < path.byteSize)

/-- The name of an entry has at most `255` bytes. -/
def isNameTooLong (name : RawText) : Bool :=
  decide (255 < name.byteSize)

/-- The path of an entry of a folder. -/
def join (folder name : RawText) : RawText :=
  if folder.isEmpty || folder.getLast? = some slash then folder ++ name else folder ++ slash :: name

/-- What stands before the last name of a path, the name, and whether slashes follow it.  The top has no last name. -/
structure Parting where
  before : List RawText
  last : RawText
  isSlashed : Bool

/-- Takes the last name off a path. -/
def part (path : RawText) : Parting :=
  let reversed := (pieces path).reverse
  match reversed.dropWhile List.isEmpty with
  | last :: before => ⟨before.reverse, last, before.length + 1 < reversed.length⟩
  | [] => ⟨[], [], true⟩

/-- Whether the last name names an entry: it is neither missing nor made of one or two dots. -/
def Parting.isName (p : Parting) : Bool :=
  !p.last.isEmpty && p.last ≠ dot && p.last ≠ dots

/-- The part after the last slash. -/
def baseName (path : RawText) : RawText :=
  (path.reverse.takeWhile (· ≠ slash)).reverse

/-- The part before the last slashes; the top if there is nothing else before them. -/
def folder (path : RawText) : RawText :=
  match (pieces path).reverse with
  | _ :: before =>
    let above := before.dropWhile List.isEmpty
    if above.isEmpty && !before.isEmpty then [slash] else ofPieces above.reverse
  | [] => []

/-- The last point of a path's last name with what follows it, if anything but points stands before it. -/
def extension (path : RawText) : RawText :=
  let point : RawChar := '.'
  let name := path.reverse.takeWhile (· ≠ slash)
  let last := name.takeWhile (· ≠ point)
  match name.drop last.length with
  | _ :: before => if before.all (· = point) then [] else point :: last.reverse
  | [] => []

/-- The names that lead from the top to the place of a path, by the text alone: `working` are those of the folder
from which a path starts that does not start from the top. -/
def names (working : List RawText) (path : RawText) : List RawText :=
  let start := if isAbsolute path then [] else working.reverse
  ((pieces path).foldl (fun done piece =>
    if piece.isEmpty || piece = dot then done else if piece = dots then done.drop 1 else piece :: done) start).reverse

/-- The path from the top to the place of a path, by the text alone. -/
def absolute (working : List RawText) (path : RawText) : RawText :=
  slash :: ofPieces (names working path)

/-- The number of names with which two chains begin alike. -/
def shared : List RawText → List RawText → Nat
  | a :: as, b :: bs => if a = b then shared as bs + 1 else 0
  | _, _ => 0

/-- A path from the folder `start` to the place of a path, by the text alone. -/
def relative (working : List RawText) (path start : RawText) : RawText :=
  let source := names working start
  let target := names working path
  let common := shared source target
  match List.replicate (source.length - common) dots ++ target.drop common with
  | [] => dot
  | first :: rest => rest.foldl join first

/-- Whether a path has a null character, which no file system takes. -/
def hasNull (path : RawText) : Bool :=
  path.contains '\x00'

end Semblance.Path
