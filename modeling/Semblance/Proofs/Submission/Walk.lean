import Semblance.Proofs.Files.Chains
import Semblance.Proofs.Submission.Grouping

/-!
# Walks

A walk through a folder lists its files and then those of its subfolders, both sorted by name.  In terms of the chains
of names that lead to the files this is one order on chains (`ComesBefore`), and the walk is the sorted list of the
chains of all files below the folder (`exists_isWalk`), except those in folders that cannot be opened: one on the way is
locked, or the path is too long.  A sorted list is determined by its members, so the walk does not depend on the order
of the entries in any folder.  Nor does its depth, which is the length of the longest way to a folder that the walk
tries to open (`lt_walkDepth_iff`).
-/

namespace Semblance

open FileTree

/-- One of two files below a folder comes before the other: the files in a folder come in the order of their names,
and before all files in its subfolders, which come in the order of the names of these. -/
inductive ComesBefore : List RawText → List RawText → Prop
  | files {a b : RawText} (h : a < b) : ComesBefore [a] [b]
  | fileFolder {a b : RawText} {rest : List RawText} (hr : rest ≠ []) : ComesBefore [a] (b :: rest)
  | folders {a b : RawText} {rest rest' : List RawText} (h : a < b) (hr : rest ≠ []) (hr' : rest' ≠ []) :
      ComesBefore (a :: rest) (b :: rest')
  | inside {a : RawText} {rest rest' : List RawText} (h : ComesBefore rest rest') : ComesBefore (a :: rest) (a :: rest')

namespace ComesBefore

theorem ne_nil {names names' : List RawText} (h : ComesBefore names names') : names ≠ [] ∧ names' ≠ [] := by
  cases h <;> simp

theorem asymm {names names' : List RawText} (h : ComesBefore names names') : ¬ ComesBefore names' names := by
  induction h with
  | files hab =>
    rintro (hba | hr | ⟨-, hr, -⟩ | h)
    · exact lt_asymm hab hba
    · exact hr rfl
    · exact hr rfl
    · exact h.ne_nil.1 rfl
  | fileFolder hr =>
    rintro (_ | hr' | ⟨-, -, hr'⟩ | h)
    · exact hr rfl
    · exact hr' rfl
    · exact hr' rfl
    · exact h.ne_nil.2 rfl
  | folders hab hr hr' =>
    rintro (_ | _ | ⟨hba, -, -⟩ | h)
    · exact hr rfl
    · exact hr' rfl
    · exact lt_asymm hab hba
    · exact lt_irrefl _ hab
  | inside h ih =>
    rintro (hba | hr | ⟨hba, -, -⟩ | h')
    · exact lt_irrefl _ hba
    · exact h.ne_nil.2 rfl
    · exact lt_irrefl _ hba
    · exact ih h'

instance : Std.Asymm ComesBefore :=
  ⟨fun _ _ => asymm⟩

end ComesBefore

namespace FileTree

/-- A walk from a folder that is shown as `shown` opens all folders along a chain of names: none of them is locked, and
the path is not too long. -/
structure IsOpened (t : FileTree) (shown : RawText) (names : List RawText) : Prop where
  unlocked : ∀ front, front <+: names → ∃ entries, t.at? front = some (folder entries)
  inReach : Path.isTooLong (Path.along shown names) = false

/-- A file below a folder that is shown as `shown`, in a folder that a walk opens. -/
structure IsReached (t : FileTree) (shown : RawText) (names : List RawText) : Prop where
  below : names ≠ []
  hasFile : t.HasFile names
  isOpened : t.IsOpened shown names.dropLast

/-- All files below a folder to which a walk gets, in its order. -/
structure IsWalk (t : FileTree) (shown : RawText) (chains : List (List RawText)) : Prop where
  sorted : chains.Pairwise ComesBefore
  mem_iff : ∀ names, names ∈ chains ↔ t.IsReached shown names

/-- A name is that of one entry only. -/
theorem eq_of_mem_of_mem {entries : List (RawText × FileTree)} (hd : (entries.map Prod.fst).Nodup) {name : RawText}
    {t t' : FileTree} (h : (name, t) ∈ entries) (h' : (name, t') ∈ entries) : t = t' :=
  congrArg Prod.snd (List.inj_on_of_nodup_map hd h h' rfl)

section Reached

variable {t : FileTree} {shown name : RawText} {names rest : List RawText} {entries : List (RawText × FileTree)}

theorem IsOpened.exists_entries (h : t.IsOpened shown names) : ∃ entries, t = folder entries := by
  obtain ⟨entries, he⟩ := h.unlocked [] List.nil_prefix
  exact ⟨entries, Option.some.inj he⟩

theorem isOpened_nil : (folder entries).IsOpened shown [] ↔ Path.isTooLong shown = false := by
  refine ⟨IsOpened.inReach, fun h => ⟨fun front hf => ?_, h⟩⟩
  obtain rfl := List.prefix_nil.1 hf
  exact ⟨entries, rfl⟩

theorem isOpened_cons (hd : (entries.map Prod.fst).Nodup) : (folder entries).IsOpened shown (name :: rest) ↔
    ∃ t, (name, t) ∈ entries ∧ t.IsOpened (Path.join shown name) rest := by
  have hat {t : FileTree} (h : (name, t) ∈ entries) (front : List RawText) :
      (folder entries).at? (name :: front) = t.at? front := by
    rw [at?, entry?, FileTree.entries, (lookup_eq_some_iff_mem hd).2 h, Option.bind_some]
  constructor
  · rintro ⟨hunlocked, hreach⟩
    obtain ⟨inner, hinner⟩ := hunlocked [name] (by simp)
    obtain ⟨t, ht, -⟩ := Option.bind_eq_some_iff.1 hinner
    have hmem := (lookup_eq_some_iff_mem hd).1 ht
    refine ⟨t, hmem, fun front hf => ?_, hreach⟩
    rw [← hat hmem]
    exact hunlocked (name :: front) (List.cons_prefix_cons.2 ⟨rfl, hf⟩)
  · rintro ⟨t, hmem, hunlocked, hreach⟩
    refine ⟨fun front hf => ?_, hreach⟩
    rcases List.prefix_cons_iff.1 hf with rfl | ⟨front, rfl, hfront⟩
    · exact ⟨entries, rfl⟩
    · rw [hat hmem]
      exact hunlocked front hfront

theorem hasFile_cons (hd : (entries.map Prod.fst).Nodup) :
    (folder entries).HasFile (name :: rest) ↔ ∃ t, (name, t) ∈ entries ∧ t.HasFile rest := by
  simp only [HasFile, at?, Option.bind_eq_some_iff, entry?, FileTree.entries, lookup_eq_some_iff_mem hd]
  constructor
  · rintro ⟨u, ⟨t, ht, hu⟩, hfile⟩
    exact ⟨t, ht, u, hu, hfile⟩
  · rintro ⟨t, ht, u, hu, hfile⟩
    exact ⟨u, ⟨t, ht, hu⟩, hfile⟩

theorem IsReached.exists_entries (h : t.IsReached shown names) : ∃ entries, t = folder entries :=
  h.isOpened.exists_entries

theorem isReached_singleton (hd : (entries.map Prod.fst).Nodup) :
    (folder entries).IsReached shown [name] ↔ name ∈ fileNames entries ∧ Path.isTooLong shown = false := by
  have hfile : (folder entries).HasFile [name] ↔ name ∈ fileNames entries := by
    rw [hasFile_cons hd, mem_fileNames]
    simp [HasFile, at?]
  have hopened : (folder entries).IsOpened shown [] ↔ Path.isTooLong shown = false := isOpened_nil
  rw [← hfile, ← hopened]
  exact ⟨fun h => ⟨h.hasFile, h.isOpened⟩, fun h => ⟨by simp, h.1, h.2⟩⟩

theorem isReached_cons (hd : (entries.map Prod.fst).Nodup) (hr : rest ≠ []) :
    (folder entries).IsReached shown (name :: rest) ↔
      ∃ t, (name, t) ∈ entries ∧ t.IsReached (Path.join shown name) rest := by
  have hlast : (name :: rest).dropLast = name :: rest.dropLast := List.dropLast_cons_of_ne_nil hr
  constructor
  · rintro ⟨-, hfile, hopened⟩
    obtain ⟨t, hmem, hfile⟩ := (hasFile_cons hd).1 hfile
    obtain ⟨t', hmem', hopened⟩ := (isOpened_cons hd).1 (hlast ▸ hopened)
    obtain rfl := eq_of_mem_of_mem hd hmem hmem'
    exact ⟨t, hmem, hr, hfile, hopened⟩
  · rintro ⟨t, hmem, -, hfile, hopened⟩
    exact ⟨by simp, (hasFile_cons hd).2 ⟨t, hmem, hfile⟩, hlast ▸ (isOpened_cons hd).2 ⟨t, hmem, hopened⟩⟩

end Reached

/-! ### The files in the order of a walk -/

section Folder

variable {shown : RawText} {entries : List (RawText × FileTree)} {walk : RawText × List Visit → List (List RawText)}

/-- The files of a folder and then the given walks through its subfolders. -/
def folderWalk (shown : RawText) (entries : List (RawText × FileTree))
    (walk : RawText × List Visit → List (List RawText)) : List (List RawText) :=
  (fileNames entries).map ([·]) ++
    (sortByName (subvisits shown entries)).flatMap fun e => (walk e).map (e.1 :: ·)

/-- Each subfolder has the given walk. -/
def AreWalks (shown : RawText) (entries : List (RawText × FileTree))
    (walk : RawText × List Visit → List (List RawText)) : Prop :=
  ∀ e ∈ sortByName (subvisits shown entries),
    ∃ t, (e.1, t) ∈ entries ∧ t.IsWalk (Path.join shown e.1) (walk e)

theorem pairwise_folderWalk (hd : (entries.map Prod.fst).Nodup) (hwalk : AreWalks shown entries walk) :
    (folderWalk shown entries walk).Pairwise ComesBefore := by
  have hne : ∀ e ∈ sortByName (subvisits shown entries), ∀ names ∈ walk e, names ≠ [] := by
    intro e he names hnames
    obtain ⟨t, -, hw⟩ := hwalk e he
    exact ((hw.mem_iff names).1 hnames).below
  refine List.pairwise_append.2 ⟨?_, List.pairwise_flatMap.2 ⟨?_, ?_⟩, ?_⟩
  · exact List.pairwise_map.2 ((pairwise_fileNames hd).imp .files)
  · intro e he
    obtain ⟨t, -, hw⟩ := hwalk e he
    exact List.pairwise_map.2 (hw.sorted.imp .inside)
  · refine (pairwise_subvisits hd shown).imp_of_mem fun {e e'} he he' hlt => ?_
    simp only [List.mem_map]
    rintro _ ⟨names, hnames, rfl⟩ _ ⟨names', hnames', rfl⟩
    exact .folders hlt (hne e he names hnames) (hne e' he' names' hnames')
  · simp only [List.mem_map, List.mem_flatMap]
    rintro _ ⟨name, -, rfl⟩ _ ⟨e, he, names, hnames, rfl⟩
    exact .fileFolder (hne e he names hnames)

theorem mem_folderWalk (hd : (entries.map Prod.fst).Nodup) (hlong : Path.isTooLong shown = false)
    (hwalk : AreWalks shown entries walk) (names : List RawText) :
    names ∈ folderWalk shown entries walk ↔ (folder entries).IsReached shown names := by
  simp only [folderWalk, List.mem_append, List.mem_map, List.mem_flatMap]
  constructor
  · rintro (⟨name, hname, rfl⟩ | ⟨e, he, rest, hrest, rfl⟩)
    · exact (isReached_singleton hd).2 ⟨hname, hlong⟩
    · obtain ⟨t, hmem, hw⟩ := hwalk e he
      have hreached := (hw.mem_iff rest).1 hrest
      exact (isReached_cons hd hreached.below).2 ⟨t, hmem, hreached⟩
  · intro hreached
    obtain ⟨name, rest, rfl⟩ := List.exists_cons_of_ne_nil hreached.below
    by_cases hr : rest = []
    · subst hr
      exact .inl ⟨name, ((isReached_singleton hd).1 hreached).1, rfl⟩
    · obtain ⟨t, hmem, hin⟩ := (isReached_cons hd hr).1 hreached
      obtain ⟨inner, rfl⟩ := hin.exists_entries
      have he : (name, (folder inner).visits (Path.join shown name)) ∈ sortByName (subvisits shown entries) :=
        mem_sortByName.2 (mem_subvisits.2 ⟨folder inner, hmem, rfl, rfl⟩)
      obtain ⟨t, hmem', hw⟩ := hwalk _ he
      obtain rfl := eq_of_mem_of_mem hd hmem hmem'
      exact .inr ⟨_, he, rest, (hw.mem_iff rest).2 hin, rfl⟩

end Folder

/-- From what cannot be opened a walk gets to no file. -/
theorem isWalk_nil {t : FileTree} {shown : RawText} (h : ¬ t.IsOpened shown []) : t.IsWalk shown [] := by
  refine ⟨.nil, fun names => ⟨by simp, fun hreached => absurd ⟨fun front hf => ?_, ?_⟩ h⟩⟩
  · exact hreached.isOpened.unlocked front (hf.trans List.nil_prefix)
  · exact Path.isTooLong_of_along hreached.isOpened.inReach

/-- The files below a folder are listed in the order of a walk. -/
theorem exists_isWalk {t : FileTree} (h : t.IsSound) (shown : RawText) :
    ∃ chains, (t.visits shown).flatMap Visit.paths = chains.map (Path.along shown) ∧ t.IsWalk shown chains := by
  induction h generalizing shown with
  | file bytes => exact ⟨[], rfl, isWalk_nil fun hopened => by simpa using hopened.exists_entries⟩
  | locked => exact ⟨[], rfl, isWalk_nil fun hopened => by simpa using hopened.exists_entries⟩
  | @folder entries hd hn ht ih =>
    by_cases hlong : Path.isTooLong shown
    · exact ⟨[], by simp [visits, hlong], isWalk_nil fun hopened => by simpa [hlong] using hopened.inReach⟩
    -- each subfolder has a walk of its own, which the name of the subfolder takes into the walk of the folder
    have hbelow : ∀ e ∈ sortByName (subvisits shown entries), ∃ chains,
        e.2.flatMap Visit.paths = chains.map (Path.along (Path.join shown e.1)) ∧
          ∃ t, (e.1, t) ∈ entries ∧ t.IsWalk (Path.join shown e.1) chains := by
      rintro ⟨name, found⟩ he
      obtain ⟨t, hmem, -, rfl⟩ := mem_subvisits.1 (mem_sortByName.1 he)
      obtain ⟨chains, hpaths, hwalk⟩ := ih _ hmem (Path.join shown name)
      exact ⟨chains, hpaths, t, hmem, hwalk⟩
    choose! walk hpaths hwalk using hbelow
    refine ⟨folderWalk shown entries walk, ?_, pairwise_folderWalk hd hwalk,
      mem_folderWalk hd (by simpa using hlong) hwalk⟩
    rw [visits, if_neg hlong, folderWalk, List.map_append, List.map_map, List.map_flatMap, List.flatMap_cons,
      List.flatMap_assoc]
    congr 1
    refine List.flatMap_congr fun e he => ?_
    rw [List.map_map]
    exact hpaths e he

/-! ### The depth of a walk -/

/-- A folder that a walk tries to open: the first one, or one that it finds in a folder that it has opened. -/
structure IsTried (t : FileTree) (shown : RawText) (names : List RawText) : Prop where
  isFolder : ∃ u, t.at? names = some u ∧ u.isFolder
  isOpened : names ≠ [] → t.IsOpened shown names.dropLast

section Tried

variable {shown name : RawText} {rest : List RawText} {entries : List (RawText × FileTree)}

theorem isTried_nil {t : FileTree} : t.IsTried shown [] ↔ t.isFolder :=
  ⟨fun h => by simpa [at?] using h.isFolder, fun h => ⟨⟨t, rfl, h⟩, fun hne => absurd rfl hne⟩⟩

theorem isTried_cons (hd : (entries.map Prod.fst).Nodup) (hlong : Path.isTooLong shown = false) :
    (folder entries).IsTried shown (name :: rest) ↔
      ∃ t, (name, t) ∈ entries ∧ t.IsTried (Path.join shown name) rest := by
  have hfolder : (∃ u, (folder entries).at? (name :: rest) = some u ∧ u.isFolder) ↔
      ∃ t, (name, t) ∈ entries ∧ ∃ u, t.at? rest = some u ∧ u.isFolder := by
    simp only [at?, Option.bind_eq_some_iff, entry?, FileTree.entries, lookup_eq_some_iff_mem hd]
    grind
  by_cases hr : rest = []
  · subst hr
    simp only [isTried_nil]
    constructor
    · rintro ⟨h, -⟩
      simpa [at?] using hfolder.1 h
    · rintro ⟨t, hmem, ht⟩
      exact ⟨hfolder.2 ⟨t, hmem, t, rfl, ht⟩, fun _ => isOpened_nil.2 hlong⟩
  have hlast : (name :: rest).dropLast = name :: rest.dropLast := List.dropLast_cons_of_ne_nil hr
  constructor
  · rintro ⟨h, hopened⟩
    obtain ⟨t, hmem, ht⟩ := hfolder.1 h
    obtain ⟨t', hmem', hopened⟩ := (isOpened_cons hd).1 (hlast ▸ hopened (by simp))
    obtain rfl := eq_of_mem_of_mem hd hmem hmem'
    exact ⟨t, hmem, ht, fun _ => hopened⟩
  · rintro ⟨t, hmem, ht, hopened⟩
    exact ⟨hfolder.2 ⟨t, hmem, ht⟩, fun _ => hlast ▸ (isOpened_cons hd).2 ⟨t, hmem, hopened hr⟩⟩

theorem lt_greatestDepth_iff {n : Nat} :
    n < greatestDepth shown entries ↔ ∃ e ∈ entries, n < e.2.walkDepth (Path.join shown e.1) := by
  induction entries with
  | nil => simp [greatestDepth]
  | cons e rest ih => simp [greatestDepth, ih]

end Tried

/-- What cannot be opened is the only folder that a walk from there tries, if it is one. -/
theorem isTried_iff_of_not_isOpened {t : FileTree} {shown : RawText} (h : ¬ t.IsOpened shown [])
    {names : List RawText} : t.IsTried shown names ↔ names = [] ∧ t.isFolder := by
  constructor
  · intro htried
    by_cases hne : names = []
    · exact ⟨hne, isTried_nil.1 (hne ▸ htried)⟩
    · have hopened := htried.isOpened hne
      refine absurd ⟨fun front hf => ?_, ?_⟩ h
      · exact hopened.unlocked front (hf.trans List.nil_prefix)
      · exact Path.isTooLong_of_along hopened.inReach
  · rintro ⟨rfl, ht⟩
    exact isTried_nil.2 ht

/-- A walk has more than a given depth exactly if it tries to open a folder that lies that deep. -/
theorem lt_walkDepth_iff {t : FileTree} (h : t.IsSound) {shown : RawText} {n : Nat} :
    n < t.walkDepth shown ↔ ∃ names, names.length = n ∧ t.IsTried shown names := by
  induction h generalizing shown n with
  | file bytes =>
    have hnot : ¬ (file bytes).IsOpened shown [] := fun h => by simpa using h.exists_entries
    simp [walkDepth, isTried_iff_of_not_isOpened hnot, FileTree.isFolder]
  | @locked inner =>
    have hnot : ¬ (locked inner).IsOpened shown [] := fun h => by simpa using h.exists_entries
    rw [walkDepth]
    simp only [isTried_iff_of_not_isOpened hnot, FileTree.isFolder]
    cases inner.isFolder <;> simp [eq_comm]
  | @folder entries hd hn ht ih =>
    rw [walkDepth]
    split
    · rename_i hlong
      have hnot : ¬ (folder entries).IsOpened shown [] := fun h => by simpa [hlong] using h.inReach
      simp [isTried_iff_of_not_isOpened hnot, FileTree.isFolder, eq_comm]
    · rename_i hlong
      cases n with
      | zero => simp [isTried_nil, FileTree.isFolder]
      | succ n =>
        rw [Nat.add_lt_add_iff_right, lt_greatestDepth_iff]
        constructor
        · rintro ⟨⟨name, t⟩, hmem, hlt⟩
          obtain ⟨rest, hlength, htried⟩ := (ih _ hmem).1 hlt
          exact ⟨name :: rest, by simpa using hlength, (isTried_cons hd (by simpa using hlong)).2 ⟨t, hmem, htried⟩⟩
        · rintro ⟨names, hlength, htried⟩
          obtain ⟨name, rest, rfl⟩ := List.exists_cons_of_length_eq_add_one hlength
          obtain ⟨t, hmem, htried⟩ := (isTried_cons hd (by simpa using hlong)).1 htried
          exact ⟨(name, t), hmem, (ih _ hmem).2 ⟨rest, by simpa using hlength, htried⟩⟩

end FileTree

end Semblance
