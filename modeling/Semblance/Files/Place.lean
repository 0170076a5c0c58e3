import Semblance.Files.FileTree

/-!
# Places

A place in a file tree together with the way to it, so that the folder above is at hand: from a place one step leads
down to an entry or back up.  The names on the way lead from the top to the same place (`at?_names`).
-/

namespace Semblance

/-- The file or folder at a place; for each step on the way to it, the last step first, the name and the folder in
which it was looked up. -/
structure Place where
  here : FileTree
  above : List (RawText × FileTree) := []
  deriving Inhabited, Repr

namespace Place

/-- The names that lead from the top to a place. -/
def names (p : Place) : List RawText :=
  (p.above.map (·.1)).reverse

/-- The folder above; the top is above itself. -/
def up (p : Place) : Place :=
  match p.above with
  | (_, folder) :: rest => ⟨folder, rest⟩
  | [] => p

/-- The entry with the given name. -/
def down? (p : Place) (name : RawText) : Option Place :=
  (p.here.entry? name).map fun next => ⟨next, (name, p.here) :: p.above⟩

/-- The place to which a chain of names leads. -/
def along? (p : Place) : List RawText → Option Place
  | [] => some p
  | name :: rest => (p.down? name).bind fun next => next.along? rest

/-- Every step on the way to a place was a look-up, and the first began at the top of the tree `t`. -/
def LeadsFrom (t here : FileTree) : List (RawText × FileTree) → Prop
  | [] => here = t
  | (name, folder) :: rest => folder.entry? name = some here ∧ LeadsFrom t folder rest

/-- A place lies in a tree if its way begins at the top. -/
def IsIn (p : Place) (t : FileTree) : Prop :=
  LeadsFrom t p.here p.above

theorem isIn_top (t : FileTree) : (⟨t, []⟩ : Place).IsIn t :=
  rfl

theorem IsIn.up {p : Place} {t : FileTree} (h : p.IsIn t) : p.up.IsIn t := by
  obtain ⟨here, above⟩ := p
  cases above with
  | nil => exact h
  | cons step rest => exact h.2

theorem IsIn.down {p q : Place} {t : FileTree} {name : RawText} (h : p.IsIn t) (hq : p.down? name = some q) :
    q.IsIn t := by
  obtain ⟨next, hn, rfl⟩ := Option.map_eq_some_iff.mp hq
  exact ⟨hn, h⟩

/-- The names of a place in a tree lead to it. -/
theorem at?_names {p : Place} {t : FileTree} (h : p.IsIn t) : t.at? p.names = some p.here := by
  obtain ⟨here, above⟩ := p
  induction above generalizing here with
  | nil => exact congrArg some (Eq.symm h)
  | cons step rest ih =>
    obtain ⟨name, folder⟩ := step
    have hf : t.at? (names ⟨folder, rest⟩) = some folder := ih folder h.2
    have hn : names ⟨here, (name, folder) :: rest⟩ = names ⟨folder, rest⟩ ++ [name] := by simp [names]
    rw [hn, FileTree.at?_append, hf]
    simp [FileTree.at?, h.1]

end Place

end Semblance
