import Semblance.Console.Run

/-!
# The program

The command line: the files below the current folder, and below other places that the arguments lead to, are read,
the command is run on them, what it wrote is written back, and its texts go to the output and to the messages.
-/

namespace Semblance

/-- Reads the tree at a path, if something is there.  What cannot be read is locked. -/
partial def loadTree (path : String) : IO (Option FileTree) := do
  try
    let place ← IO.FS.realPath path
    if ← place.isDir then
      try
        let entries ← (← place.readDir).toList.filterMapM fun entry => do
          let found ← loadTree (path ++ "/" ++ entry.fileName)
          return found.map fun t => (RawText.ofString entry.fileName, t)
        return some (.folder entries)
      catch _ => return some (.locked (.folder []))
    else if ← place.pathExists then
      try return some (.file (← IO.FS.readBinFile path).toList)
      catch _ => return some (.locked (.file []))
    else return none
  catch _ => return none

/-- Reads the tree at a path, if it does not lie below the working folder, onto a disk. -/
def loadPlace (d : Disk) (path : String) : IO Disk := do
  let names := Path.names d.working path
  if d.working.isPrefixOf names then return d
  match ← loadTree path with
  | some t => return d.put t names
  | none => return d

/-- Reads the current folder and the places of some arguments. -/
def loadDisk (arguments : List String) : IO Disk := do
  let working := Path.names [] (← IO.currentDir).toString
  let here := (← loadTree ".").getD (.folder [])
  arguments.foldlM loadPlace (Disk.put { tree := .folder [], working } here working)

/-- Writes the files and folders of a tree that are not in the tree `old`. -/
partial def saveTree (path : String) (old : Option FileTree) (new : FileTree) : IO Unit := do
  match new with
  | .file bytes =>
    match old with
    | some (.file known) => if known = bytes then return
    | _ => pure ()
    IO.FS.writeBinFile path ⟨bytes.toArray⟩
  | .folder entries =>
    match old with
    | some (.folder _) => pure ()
    | _ => IO.FS.createDirAll path
    for (name, t) in entries do
      saveTree (path ++ "/" ++ name.text) (old.bind fun o => o.entry? name) t
  | .locked _ => pure ()

/-- How deep an outline can be nested. -/
def outlineDepth : Nat := 990

end Semblance

open Semblance in
/-- Runs the program. -/
def main (arguments : List String) : IO UInt32 := do
  let before ← loadDisk arguments
  let (result, after) := Command.run before outlineDepth arguments
  saveTree "" (some before.tree) after.tree
  match result with
  | .error e =>
    IO.eprintln e.message
    return 1
  | .ok outcome =>
    IO.eprint outcome.messages.text
    IO.print outcome.output.text
    return UInt32.ofNat outcome.status
