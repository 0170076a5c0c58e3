import Semblance.Text.Raw

/-!
# File trees

A file tree is a file with its bytes, or a folder with named entries; either may be locked, so that the program can see
that it is there but not open it.  A place in a tree is the chain of names that leads to it from the top, whatever is
locked on the way.
-/

namespace Semblance

/-- A file or a folder, which may be locked. -/
inductive FileTree where
  | file (bytes : List UInt8)
  | folder (entries : List (RawText × FileTree))
  | locked (inner : FileTree)
  deriving Inhabited, Repr

namespace FileTree

def isFolder : FileTree → Bool
  | file _ => false
  | folder _ => true
  | locked inner => inner.isFolder

/-- The entries of a folder; a file has none. -/
def entries : FileTree → List (RawText × FileTree)
  | file _ => []
  | folder entries => entries
  | locked inner => inner.entries

/-- The entry of a folder with the given name. -/
def entry? (name : RawText) (t : FileTree) : Option FileTree :=
  t.entries.lookup name

/-- The tree at the end of a chain of names. -/
def at? (t : FileTree) : List RawText → Option FileTree
  | [] => some t
  | name :: rest => (t.entry? name).bind fun next => next.at? rest

theorem at?_append (t : FileTree) (names more : List RawText) :
    t.at? (names ++ more) = (t.at? names).bind fun next => next.at? more := by
  induction names generalizing t with
  | nil => rfl
  | cons name rest ih => cases h : t.entry? name <;> simp [at?, h, ih]

/-- Entries with one of them replaced, or with a new one at the end. -/
def setEntry (name : RawText) (new : FileTree) : List (RawText × FileTree) → List (RawText × FileTree)
  | [] => [(name, new)]
  | (other, t) :: rest => if other = name then (name, new) :: rest else (other, t) :: setEntry name new rest

/-- A folder with its entries changed. -/
def change (f : List (RawText × FileTree) → List (RawText × FileTree)) : FileTree → FileTree
  | file _ => folder (f [])
  | folder entries => folder (f entries)
  | locked inner => locked (inner.change f)

/-- The tree with `new` at the end of a chain of names; folders that are missing on the way are made. -/
def put (t new : FileTree) : List RawText → FileTree
  | [] => new
  | name :: rest => t.change (setEntry name (((t.entry? name).getD (folder [])).put new rest))

theorem lookup_setEntry_self (name : RawText) (new : FileTree) (entries : List (RawText × FileTree)) :
    (setEntry name new entries).lookup name = some new := by
  induction entries with
  | nil => simp [setEntry]
  | cons entry rest ih =>
    obtain ⟨other, t⟩ := entry
    unfold setEntry
    split
    · simp
    · rename_i h
      rw [List.lookup_cons, beq_false_of_ne (Ne.symm h), ih]

theorem lookup_setEntry_of_ne {name other : RawText} (h : other ≠ name) (new : FileTree)
    (entries : List (RawText × FileTree)) :
    (setEntry name new entries).lookup other = entries.lookup other := by
  induction entries with
  | nil => rw [setEntry, List.lookup_cons, beq_false_of_ne h]
  | cons entry rest ih =>
    obtain ⟨first, t⟩ := entry
    unfold setEntry
    split
    · rename_i hf
      subst hf
      rw [List.lookup_cons, List.lookup_cons, beq_false_of_ne h]
    · rw [List.lookup_cons, List.lookup_cons, ih]

/-- The tree without what is at the end of a chain of names. -/
def erase (t : FileTree) : List RawText → FileTree
  | [] => t
  | [name] => t.change fun entries => entries.filter (·.1 ≠ name)
  | name :: rest =>
    match t.entry? name with
    | some next => t.change (setEntry name (next.erase rest))
    | none => t

end FileTree

end Semblance
