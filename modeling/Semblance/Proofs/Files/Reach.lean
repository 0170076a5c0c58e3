import Mathlib.Data.List.Basic
import Semblance.Files.Disk

/-!
# Look-ups below a folder

The path of an entry leads where its name leads from the folder (`reach_join`), if the name is a proper one.  So what
lies below a folder is found in the same way on two disks once the folder is (`reach_join_congr`), whatever else the
disks hold.
-/

namespace Semblance

/-- The names that an entry of a folder can have. -/
structure Path.IsEntryName (name : RawText) : Prop where
  ne_nil : name ≠ []
  ne_dot : name ≠ dot
  ne_dots : name ≠ dots
  no_slash : slash ∉ name

instance (name : RawText) : Decidable (Path.IsEntryName name) :=
  decidable_of_iff (name ≠ [] ∧ name ≠ Path.dot ∧ name ≠ Path.dots ∧ Path.slash ∉ name)
    ⟨fun ⟨h1, h2, h3, h4⟩ => ⟨h1, h2, h3, h4⟩, fun ⟨h1, h2, h3, h4⟩ => ⟨h1, h2, h3, h4⟩⟩

/-- All entries below have names that an entry can have. -/
inductive FileTree.IsProper : FileTree → Prop
  | file (bytes : List UInt8) : IsProper (file bytes)
  | folder {entries : List (RawText × FileTree)} (hn : ∀ e ∈ entries, Path.IsEntryName e.1)
      (ht : ∀ e ∈ entries, IsProper e.2) : IsProper (folder entries)
  | locked {inner : FileTree} (h : IsProper inner) : IsProper (locked inner)

theorem FileTree.IsProper.of_mem_entries {t : FileTree} (h : t.IsProper) :
    ∀ e ∈ t.entries, Path.IsEntryName e.1 ∧ e.2.IsProper := by
  induction h with
  | file => simp [FileTree.entries]
  | folder hn ht => exact fun e he => ⟨hn e he, ht e he⟩
  | locked _ ih => exact ih

theorem FileTree.IsProper.of_perm {entries entries' : List (RawText × FileTree)}
    (hp : (FileTree.folder entries).IsProper) (h : entries'.Perm entries) : (FileTree.folder entries').IsProper := by
  cases hp with
  | folder hn ht => exact .folder (fun e he => hn e (h.mem_iff.1 he)) fun e he => ht e (h.mem_iff.1 he)

/-! ### The pieces of a joined path -/

namespace Path

variable {shown name : RawText}

theorem pieces_append_slash (front rest : RawText) : pieces (front ++ slash :: rest) = pieces front ++ pieces rest :=
  List.splitOn_append_cons_self ..

theorem pieces_of_no_slash (h : slash ∉ name) : pieces name = [name] :=
  List.splitOn_eq_singleton h

/-- A joined path has the name after the pieces of the folder, up to a slash at the end of the folder. -/
theorem pieces_join (hs : shown ≠ []) (hn : IsEntryName name) :
    ∃ before, pieces (join shown name) = before ++ [name] ∧
      (pieces shown = before ∨ pieces shown = before ++ [[]]) := by
  by_cases hslash : shown.getLast? = some slash
  · obtain ⟨front, rfl⟩ := List.getLast?_eq_some_iff.1 hslash
    refine ⟨pieces front, ?_, .inr (pieces_append_slash front [])⟩
    rw [join, if_pos (by simp), List.append_assoc, List.singleton_append, pieces_append_slash,
      pieces_of_no_slash hn.no_slash]
  · refine ⟨pieces shown, ?_, .inl rfl⟩
    rw [join, if_neg (by simp [hs, hslash]), pieces_append_slash, pieces_of_no_slash hn.no_slash]

private theorem exists_join (shown name : RawText) : ∃ rest, join shown name = shown ++ rest := by
  unfold join
  split
  · exact ⟨name, rfl⟩
  · exact ⟨slash :: name, rfl⟩

theorem join_ne_nil (hs : shown ≠ []) (name : RawText) : join shown name ≠ [] := by
  obtain ⟨rest, hrest⟩ := exists_join shown name
  rw [hrest]
  simp [hs]

theorem isTooLong_of_join (h : isTooLong (join shown name) = false) : isTooLong shown = false := by
  obtain ⟨rest, hrest⟩ := exists_join shown name
  simp only [isTooLong, hrest, RawText.byteSize_append, decide_eq_false_iff_not] at h ⊢
  omega

theorem isAbsolute_join (hs : shown ≠ []) (name : RawText) : isAbsolute (join shown name) = isAbsolute shown := by
  obtain ⟨rest, hrest⟩ := exists_join shown name
  rw [isAbsolute, isAbsolute, hrest, List.head?_append_of_ne_nil _ hs]

end Path

/-! ### What a joined path leads to -/

/-- What a name in a file or folder leads to. -/
def FileTree.enter? (name : RawText) : FileTree → Except FileProblem FileTree
  | file _ => .error .notFolder
  | locked inner => .error (if inner.isFolder then .denied else .notFolder)
  | folder entries =>
    if Path.isNameTooLong name then .error .nameTooLong
    else
      match entries.lookup name with
      | some next => .ok next
      | none => .error .notFound

namespace Disk

/-- What a path leads to, without regard to null characters. -/
def reach (d : Disk) (path : RawText) : Except FileProblem FileTree :=
  (d.locate path).map (·.here)

theorem find_eq_checked (d : Disk) (path : RawText) : d.find path = checked path (d.reach path) :=
  rfl

theorem find_eq_ok_iff {d : Disk} {path : RawText} {t : FileTree} :
    d.find path = .ok t ↔ Path.hasNull path = false ∧ d.reach path = .ok t := by
  rw [find_eq_checked, checked]
  split
  · rename_i hnull
    simp [hnull]
  · rename_i hnull
    cases d.reach path <;> simp [hnull, Except.mapError]

theorem ne_nil_of_find {d : Disk} {path : RawText} {t : FileTree} (h : d.find path = .ok t) : path ≠ [] := by
  rintro rfl
  obtain ⟨-, hreach⟩ := find_eq_ok_iff.1 h
  cases hreach

theorem isTooLong_of_find {d : Disk} {path : RawText} {t : FileTree} (h : d.find path = .ok t) :
    Path.isTooLong path = false := by
  obtain ⟨-, hreach⟩ := find_eq_ok_iff.1 h
  by_contra hlong
  rw [Bool.not_eq_false] at hlong
  simp [reach, locate, start, ne_nil_of_find h, hlong, bind, Except.bind, Except.map] at hreach

theorem follow_append (p : Place) (pieces more : List RawText) :
    follow p (pieces ++ more) = (follow p pieces).bind fun q => follow q more := by
  fun_induction follow p pieces with
  | case1 p => rfl
  | case2 p piece rest bytes hfile => simp [follow, hfile, Except.bind]
  | case3 p piece rest inner hlocked hfile =>
    simp only [List.cons_append, follow, hlocked, hfile, if_true]
    rfl
  | case4 p piece rest inner hlocked hfolder hempty ih => simpa [follow, hlocked, hfolder, hempty] using ih
  | case5 p piece rest inner hlocked hfolder hempty => simp [follow, hlocked, hfolder, hempty, Except.bind]
  | case6 p piece rest entries hfolder hstay ih => simp [follow, hfolder, hstay, ih]
  | case7 p rest entries hfolder _ ih => simp [follow, hfolder, ih]
  | case8 p piece rest entries hfolder hstay hup hlong => simp [follow, hfolder, hstay, hup, hlong, Except.bind]
  | case9 p piece rest entries hfolder hstay hup hlong next hnext ih =>
    simp [follow, hfolder, hstay, hup, hlong, hnext, ih]
  | case10 p piece rest entries hfolder hstay hup hlong hnone =>
    simp [follow, hfolder, hstay, hup, hlong, hnone, Except.bind]

private theorem follow_name {name : RawText} (hn : Path.IsEntryName name) (p : Place) :
    (follow p [name]).map (·.here) = p.here.enter? name := by
  unfold follow FileTree.enter?
  cases hhere : p.here with
  | file bytes => rfl
  | locked inner =>
    dsimp only
    cases inner.isFolder <;> simp [hn.ne_nil, Except.map]
  | folder entries =>
    dsimp only
    rw [if_neg (by simp [hn.ne_nil, hn.ne_dot]), if_neg hn.ne_dots]
    split
    · rfl
    · rw [Place.down?, hhere, FileTree.entry?, FileTree.entries]
      cases entries.lookup name <;> rfl

/-- A slash at the end of a path makes no difference to the names looked up from there. -/
private theorem follow_slash (name : RawText) (p : Place) :
    ((follow p [[]]).bind fun q => follow q [name]) = follow p [name] := by
  unfold follow
  cases hhere : p.here with
  | file bytes => rfl
  | locked inner => cases hfolder : inner.isFolder <;> simp [follow, hhere, hfolder, Except.bind]
  | folder entries => simp [follow, hhere, Except.bind]

theorem start_join {d : Disk} {shown name : RawText} (hs : shown ≠ [])
    (hlong : Path.isTooLong (Path.join shown name) = false) : d.start (Path.join shown name) = d.start shown := by
  have hjoin := Path.join_ne_nil hs name
  have hshown := Path.isTooLong_of_join hlong
  unfold start
  simp only [List.isEmpty_iff, hjoin, hs, hlong, hshown, Path.isAbsolute_join hs]

/-- The path of an entry leads where its name leads from the folder, unless it is too long. -/
theorem reach_join (d : Disk) {shown name : RawText} (hs : shown ≠ []) (hn : Path.IsEntryName name) :
    d.reach (Path.join shown name) =
      if Path.isTooLong (Path.join shown name) then .error .nameTooLong
      else (d.reach shown).bind (FileTree.enter? name) := by
  split
  · rename_i hlong
    simp [reach, locate, start, Path.join_ne_nil hs, hlong, bind, Except.bind, Except.map]
  · rename_i hlong
    obtain ⟨before, hjoin, hshown⟩ := Path.pieces_join hs hn
    have hname (p : Place) : ((follow p before).bind fun q => follow q [name]).map (·.here) =
        ((follow p (Path.pieces shown)).map (·.here)).bind (FileTree.enter? name) := by
      have hend : ((follow p before).bind fun q => follow q [name]) =
          (follow p (Path.pieces shown)).bind fun q => follow q [name] := by
        rcases hshown with h | h
        · rw [h]
        · rw [h, follow_append]
          cases follow p before with
          | error e => rfl
          | ok q => exact (follow_slash name q).symm
      rw [hend]
      cases follow p (Path.pieces shown) with
      | error e => rfl
      | ok q => exact follow_name hn q
    rw [reach, reach, locate, locate, start_join hs (by simpa using hlong), hjoin]
    cases d.start shown with
    | error e => rfl
    | ok p =>
      simp only [bind, Except.bind, follow_append] at hname ⊢
      exact hname p

/-- An entry of a folder that two disks agree on is reached in the same way on both. -/
theorem reach_join_congr {d d' : Disk} {shown name : RawText} (hs : shown ≠ []) (hn : Path.IsEntryName name)
    (h : d.reach shown = d'.reach shown) : d.reach (Path.join shown name) = d'.reach (Path.join shown name) := by
  rw [reach_join d hs hn, reach_join d' hs hn, h]

/-- Two folders with one entry under a name reach it in the same way. -/
theorem reach_join_of_lookup {d d' : Disk} {shown name : RawText} {entries entries' : List (RawText × FileTree)}
    (hs : shown ≠ []) (hn : Path.IsEntryName name) (h : d.reach shown = .ok (.folder entries))
    (h' : d'.reach shown = .ok (.folder entries')) (hlookup : entries.lookup name = entries'.lookup name) :
    d.reach (Path.join shown name) = d'.reach (Path.join shown name) := by
  rw [reach_join d hs hn, reach_join d' hs hn, h, h']
  simp only [Except.bind, FileTree.enter?, hlookup]

end Disk

end Semblance
