import Semblance.Files.Disk

/-!
# Sound file trees

A file tree is sound if the entries of each of its folders have different names, and no name has a null character.
Every look-up on a disk stays within its tree (`locate_isIn`), so what a path leads to on a sound disk is sound
(`isSound_of_find`).
-/

namespace Semblance

/-- In every folder the names of the entries are different and have no null character. -/
inductive FileTree.IsSound : FileTree → Prop
  | file (bytes : List UInt8) : IsSound (file bytes)
  | folder {entries : List (RawText × FileTree)} (hd : (entries.map Prod.fst).Nodup)
      (hn : ∀ e ∈ entries, Path.hasNull e.1 = false) (ht : ∀ e ∈ entries, IsSound e.2) : IsSound (folder entries)
  | locked {inner : FileTree} (h : IsSound inner) : IsSound (locked inner)

namespace FileTree

theorem IsSound.nodup_entries {t : FileTree} (h : t.IsSound) : (t.entries.map Prod.fst).Nodup := by
  induction h with
  | file => simp [FileTree.entries]
  | folder hd => exact hd
  | locked _ ih => exact ih

theorem IsSound.of_mem_entries {t : FileTree} (h : t.IsSound) :
    ∀ e ∈ t.entries, Path.hasNull e.1 = false ∧ e.2.IsSound := by
  induction h with
  | file => simp [FileTree.entries]
  | folder hd hn ht => exact fun e he => ⟨hn e he, ht e he⟩
  | locked _ ih => exact ih

/-- Under different names, a look-up gives an entry exactly if it is there. -/
theorem lookup_eq_some_iff_mem {entries : List (RawText × FileTree)} (hd : (entries.map Prod.fst).Nodup)
    {name : RawText} {t : FileTree} : entries.lookup name = some t ↔ (name, t) ∈ entries := by
  induction entries with
  | nil => simp
  | cons e rest ih =>
    obtain ⟨other, u⟩ := e
    obtain ⟨hother, hrest⟩ := List.nodup_cons.1 (List.map_cons ▸ hd)
    rw [List.lookup_cons, List.mem_cons, Prod.mk.injEq]
    by_cases h : name = other
    · subst h
      have hnot : (name, t) ∉ rest := fun hmem => hother (List.mem_map.2 ⟨_, hmem, rfl⟩)
      simp [hnot, eq_comm]
    · simp [h, ih hrest, beq_false_of_ne h]

theorem IsSound.entry? {t u : FileTree} {name : RawText} (h : t.IsSound) (hu : t.entry? name = some u) :
    u.IsSound := by
  obtain ⟨before, after, hentries, -⟩ := List.lookup_eq_some_iff.1 hu
  exact (h.of_mem_entries (name, u) (by simp [hentries])).2

theorem IsSound.at? {t u : FileTree} {names : List RawText} (h : t.IsSound) (hu : t.at? names = some u) :
    u.IsSound := by
  induction names generalizing t with
  | nil =>
    obtain rfl : t = u := by simpa [FileTree.at?] using hu
    exact h
  | cons name rest ih =>
    obtain ⟨next, hnext, hrest⟩ := Option.bind_eq_some_iff.1 hu
    exact ih (h.entry? hnext) hrest

theorem IsSound.of_perm {entries entries' : List (RawText × FileTree)} (hs : (FileTree.folder entries).IsSound)
    (h : entries'.Perm entries) : (FileTree.folder entries').IsSound := by
  cases hs with
  | folder hd hn ht =>
    exact .folder ((h.map Prod.fst).nodup_iff.2 hd) (fun e he => hn e (h.mem_iff.1 he))
      fun e he => ht e (h.mem_iff.1 he)

end FileTree

/-! ### Look-ups stay in the tree -/

theorem Place.IsIn.isSound {p : Place} {t : FileTree} (h : p.IsIn t) (ht : t.IsSound) : p.here.IsSound :=
  ht.at? (Place.at?_names h)

theorem Place.IsIn.along? {p q : Place} {t : FileTree} {names : List RawText} (h : p.IsIn t)
    (hq : p.along? names = some q) : q.IsIn t := by
  induction names generalizing p with
  | nil =>
    obtain rfl : p = q := by simpa [Place.along?] using hq
    exact h
  | cons name rest ih =>
    obtain ⟨next, hnext, hrest⟩ := Option.bind_eq_some_iff.1 hq
    exact ih (h.down hnext) hrest

namespace Disk

theorem follow_isIn {p q : Place} {t : FileTree} {pieces : List RawText} (h : p.IsIn t)
    (hq : follow p pieces = .ok q) : q.IsIn t := by
  fun_induction follow p pieces with
  | case1 p =>
    obtain rfl : p = q := by simpa using hq
    exact h
  | case4 p piece rest _ _ _ _ ih => exact ih h hq
  | case6 p piece rest _ _ _ ih => exact ih h hq
  | case7 p rest _ _ _ ih => exact ih h.up hq
  | case9 p piece rest _ _ _ _ _ next hnext ih => exact ih (h.down hnext) hq
  | _ => simp at hq

theorem start_isIn {d : Disk} {path : RawText} {p : Place} (h : d.start path = .ok p) : p.IsIn d.tree := by
  have htop : (⟨d.tree, []⟩ : Place).IsIn d.tree := Place.isIn_top d.tree
  unfold start at h
  dsimp only at h
  split at h
  · simp at h
  split at h
  · simp at h
  split at h
  · obtain rfl : _ = p := by simpa using h
    exact htop
  split at h
  · rename_i working hw
    obtain rfl : working = p := by simpa using h
    exact htop.along? hw
  · simp at h

/-- A path leads to a place in the tree of the disk. -/
theorem locate_isIn {d : Disk} {path : RawText} {p : Place} (h : d.locate path = .ok p) : p.IsIn d.tree := by
  cases hs : d.start path with
  | error e => simp [locate, hs, bind, Except.bind] at h
  | ok s =>
    simp only [locate, hs, bind, Except.bind] at h
    exact follow_isIn (start_isIn hs) h

/-- What a path leads to on a sound disk is sound. -/
theorem isSound_of_find {d : Disk} {path : RawText} {t : FileTree} (hd : d.tree.IsSound) (h : d.find path = .ok t) :
    t.IsSound := by
  unfold find checked at h
  split at h
  · simp at h
  · cases hl : d.locate path with
    | error e =>
      rw [hl] at h
      cases h
    | ok p =>
      rw [hl] at h
      obtain rfl : p.here = t := Except.ok.inj h
      exact (locate_isIn hl).isSound hd

/-- Only a path with a null character is refused as one. -/
theorem find_ne_nullInPath {d : Disk} {path : RawText} (h : Path.hasNull path = false) :
    d.find path ≠ .error .nullInPath := by
  unfold find checked
  rw [if_neg (by simp [h])]
  cases (d.locate path).map (·.here) <;> rintro ⟨⟩

end Disk

end Semblance
