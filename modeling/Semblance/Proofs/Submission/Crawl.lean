import Mathlib.Data.List.Nodup
import Mathlib.Data.List.Sort
import Semblance.Proofs.Files.SoundTree
import Semblance.Proofs.Text.RawOrder
import Semblance.Submission.Crawl

/-!
# Submissions of a crawl

Whatever a walk comes to, the submissions of a crawl have different submitters (`nodup_crawl`), and their sources are
among their files.  In a sound file tree every path of a file can be looked up (`hasNull_of_mem_crawl`).
-/

namespace Semblance

theorem Path.hasNull_join {shown name : RawText} (hs : hasNull shown = false) (hn : hasNull name = false) :
    hasNull (join shown name) = false := by
  simp only [hasNull, List.contains_eq_mem, decide_eq_false_iff_not] at hs hn ⊢
  have hslash : RawChar.char '\x00' ≠ slash := by decide
  unfold join
  split <;> simp [hs, hn, hslash]

theorem mem_sortByName {α : Type} {e : RawText × α} {entries : List (RawText × α)} :
    e ∈ sortByName entries ↔ e ∈ entries :=
  List.mem_mergeSort

/-- Entries with different names are sorted strictly. -/
theorem pairwise_sortByName {α : Type} {entries : List (RawText × α)} (h : (entries.map Prod.fst).Nodup) :
    (sortByName entries).Pairwise fun a b => a.1 < b.1 := by
  have hle : (sortByName entries).Pairwise fun a b => a.1 ≤ b.1 :=
    List.pairwise_mergeSort' (fun a b : RawText × α => a.1 ≤ b.1) entries
  have hne : (sortByName entries).Pairwise fun a b => a.1 ≠ b.1 :=
    List.pairwise_map.1 (((List.mergeSort_perm _ _).map Prod.fst).nodup_iff.2 h)
  exact hle.imp₂ (fun _ _ => lt_of_le_of_ne) hne

/-- Sorting by insertion gives the same, and can be computed by the structure of a list. -/
theorem sortByName_eq_insertionSort {α : Type} {entries : List (RawText × α)} (h : (entries.map Prod.fst).Nodup) :
    sortByName entries = entries.insertionSort fun a b => a.1 ≤ b.1 := by
  have : Std.Asymm fun a b : RawText × α => a.1 < b.1 := ⟨fun _ _ => lt_asymm⟩
  have hperm : (entries.insertionSort fun a b => a.1 ≤ b.1).Perm entries := List.perm_insertionSort _ _
  have hle : (entries.insertionSort fun a b => a.1 ≤ b.1).Pairwise fun a b => a.1 ≤ b.1 :=
    List.pairwise_insertionSort (fun a b : RawText × α => a.1 ≤ b.1) entries
  have hne := List.pairwise_map.1 ((hperm.map Prod.fst).nodup_iff.2 h)
  refine (pairwise_sortByName h).eq_of_mem_iff (hle.imp₂ (fun _ _ => lt_of_le_of_ne) hne) fun e => ?_
  rw [mem_sortByName, hperm.mem_iff]

/-! ### Walks -/

/-- The paths of the files in a folder. -/
def Visit.paths (v : Visit) : List RawText :=
  v.names.map (Path.join v.folder)

namespace FileTree

theorem mem_fileNames {name : RawText} {entries : List (RawText × FileTree)} :
    name ∈ fileNames entries ↔ ∃ t, (name, t) ∈ entries ∧ t.isFolder = false := by
  simp [fileNames]

theorem mem_subvisits {shown name : RawText} {found : List Visit} {entries : List (RawText × FileTree)} :
    (name, found) ∈ subvisits shown entries ↔
      ∃ t, (name, t) ∈ entries ∧ t.isFolder ∧ found = t.visits (Path.join shown name) := by
  induction entries with
  | nil => simp [subvisits]
  | cons e rest ih =>
    obtain ⟨other, t⟩ := e
    rw [subvisits]
    cases hfolder : t.isFolder with
    | false =>
      rw [if_neg Bool.false_ne_true, ih]
      constructor
      · rintro ⟨t', hmem, hrest⟩
        exact ⟨t', .tail _ hmem, hrest⟩
      · rintro ⟨t', hmem, hfolder', hfound⟩
        rcases List.mem_cons.1 hmem with he | hmem
        · obtain ⟨-, rfl⟩ := Prod.mk.inj he
          exact absurd hfolder' (by simp [hfolder])
        · exact ⟨t', hmem, hfolder', hfound⟩
    | true =>
      rw [if_pos rfl, List.mem_cons, ih]
      constructor
      · rintro (he | ⟨t', hmem, hrest⟩)
        · obtain ⟨rfl, rfl⟩ := Prod.mk.inj he
          exact ⟨t, .head _, hfolder, rfl⟩
        · exact ⟨t', .tail _ hmem, hrest⟩
      · rintro ⟨t', hmem, hfolder', rfl⟩
        rcases List.mem_cons.1 hmem with he | hmem
        · obtain ⟨rfl, rfl⟩ := Prod.mk.inj he
          exact .inl rfl
        · exact .inr ⟨t', hmem, hfolder', rfl⟩

theorem map_fst_subvisits (shown : RawText) (entries : List (RawText × FileTree)) :
    (subvisits shown entries).map Prod.fst = (entries.filter fun e => e.2.isFolder).map Prod.fst := by
  induction entries with
  | nil => simp [subvisits]
  | cons e rest ih =>
    obtain ⟨name, t⟩ := e
    cases hfolder : t.isFolder with
    | false => simpa [subvisits, hfolder] using ih
    | true => simpa [subvisits, hfolder] using ih

/-- The walk through a folder by means that need no more than the structure of the lists. -/
theorem visits_folder_of_nodup {entries : List (RawText × FileTree)} (hd : (entries.map Prod.fst).Nodup)
    (shown : RawText) :
    (folder entries).visits shown =
      if Path.isTooLong shown then []
      else
        ⟨shown, ((entries.filter fun e => !e.2.isFolder).map Prod.fst).insertionSort (· ≤ ·)⟩ ::
          ((subvisits shown entries).insertionSort fun a b => a.1 ≤ b.1).flatMap fun (_, visits) => visits := by
  have hsub : ((subvisits shown entries).map Prod.fst).Nodup := by
    rw [map_fst_subvisits]
    exact hd.sublist (List.filter_sublist.map _)
  rw [visits, sortByName_eq_insertionSort hsub, fileNames, ← List.mergeSort_eq_insertionSort (· ≤ ·)]

/-- A walk comes to the folder itself, and to the folders to which it comes from one of its entries. -/
theorem mem_visits_folder {shown : RawText} {entries : List (RawText × FileTree)} {v : Visit} :
    v ∈ (folder entries).visits shown ↔ Path.isTooLong shown = false ∧ (v = ⟨shown, fileNames entries⟩ ∨
      ∃ name t, (name, t) ∈ entries ∧ t.isFolder ∧ v ∈ t.visits (Path.join shown name)) := by
  rw [visits]
  split
  · rename_i hlong
    simp [hlong]
  · rename_i hlong
    simp only [List.mem_cons, List.mem_flatMap, Prod.exists, mem_sortByName, mem_subvisits, hlong, true_and]
    refine or_congr_right ⟨?_, ?_⟩
    · rintro ⟨name, _, ⟨t, hmem, hfolder, rfl⟩, hv⟩
      exact ⟨name, t, hmem, hfolder, hv⟩
    · rintro ⟨name, t, hmem, hfolder, hv⟩
      exact ⟨name, _, ⟨t, hmem, hfolder, rfl⟩, hv⟩

theorem IsSound.hasNull_of_mem_visits {t : FileTree} (h : t.IsSound) {shown : RawText} {v : Visit}
    (hs : Path.hasNull shown = false) (hv : v ∈ t.visits shown) {path : RawText} (hp : path ∈ v.paths) :
    Path.hasNull path = false := by
  induction h generalizing shown with
  | file => simp [visits] at hv
  | locked => simp [visits] at hv
  | folder hd hn ht ih =>
    obtain ⟨-, rfl | ⟨name, t, hmem, -, hv⟩⟩ := mem_visits_folder.1 hv
    · obtain ⟨name, hname, rfl⟩ := List.mem_map.1 hp
      obtain ⟨t, hmem, -⟩ := mem_fileNames.1 hname
      exact Path.hasNull_join hs (hn _ hmem)
    · exact ih _ hmem (Path.hasNull_join hs (hn _ hmem)) hv

end FileTree

/-! ### Adding a file to a submission -/

section Credit

variable {submitter path : RawText} {isSource : Bool} {found : List Submission}

/-- A submitter who has a submission gets no second one. -/
theorem map_submitter_credit : (credit submitter path isSource found).map Submission.submitter =
    found.map Submission.submitter ++ if submitter ∈ found.map Submission.submitter then [] else [submitter] := by
  induction found with
  | nil => simp [credit]
  | cons s rest ih =>
    rw [credit]
    split
    · rename_i h
      simp [h]
    · rename_i h
      simp [ih, Ne.symm h]

theorem nodup_credit (h : (found.map Submission.submitter).Nodup) :
    ((credit submitter path isSource found).map Submission.submitter).Nodup := by
  rw [map_submitter_credit]
  split
  · simpa using h
  · rename_i hnot
    exact h.append (List.nodup_singleton _) (by simpa using hnot)

/-- What submissions have for sources and files when every path in them has a property. -/
def HavePaths (P : RawText → Prop) (found : List Submission) : Prop :=
  ∀ s ∈ found, s.sources ⊆ s.files ∧ ∀ path ∈ s.files, P path

theorem HavePaths.credit {P : RawText → Prop} (h : HavePaths P found) (hpath : P path) :
    HavePaths P (credit submitter path isSource found) := by
  induction found with
  | nil => cases isSource <;> simpa [Semblance.credit, HavePaths] using hpath
  | cons s rest ih =>
    obtain ⟨⟨hsources, hfiles⟩, hrest⟩ := List.forall_mem_cons.1 h
    rw [Semblance.credit]
    split
    · have hold : s.sources ⊆ s.files ++ [path] := List.Subset.trans hsources (List.subset_append_left _ _)
      refine List.forall_mem_cons.2 ⟨⟨?_, ?_⟩, hrest⟩
      · cases isSource
        · simpa using hold
        · exact List.append_subset.2 ⟨hold, List.subset_append_right _ _⟩
      · simpa [or_imp, forall_and, hpath] using hfiles
    · exact List.forall_mem_cons.2 ⟨⟨hsources, hfiles⟩, ih hrest⟩

/-- What holds of submissions and is kept by adding a file holds after a walk. -/
private theorem foldl_creditVisit {Q : List Submission → Prop} {working : List RawText} {root : RawText}
    {chosen : List String} {visits : List Visit} (h : Q found)
    (hstep : ∀ v ∈ visits, ∀ name ∈ v.names, ∀ submitter isSource found, Q found →
      Q (credit submitter (Path.join v.folder name) isSource found)) :
    Q (visits.foldl (creditVisit working root chosen) found) := by
  refine List.foldlRecOn visits _ h fun found hfound v hv => ?_
  exact List.foldlRecOn v.names _ hfound fun found hfound name hname => hstep v hv name hname _ _ found hfound

end Credit

/-! ### Crawls -/

theorem crawl_of_find {d : Disk} {root : RawText} {t : FileTree} (h : d.find root = .ok t)
    (extensions : List String) : crawl d root extensions =
      (t.visits root).foldl (creditVisit d.working root (chosenExtensions extensions)) [] := by
  rw [crawl, h]

/-- The submissions of a crawl have different submitters. -/
theorem nodup_crawl (d : Disk) (root : RawText) (extensions : List String) :
    ((crawl d root extensions).map Submission.submitter).Nodup := by
  cases hf : d.find root with
  | error e => simp [crawl, hf]
  | ok t =>
    rw [crawl_of_find hf]
    exact foldl_creditVisit (Q := fun found => (found.map Submission.submitter).Nodup) List.nodup_nil
      fun _ _ _ _ _ _ _ => nodup_credit

/-- The files of a crawl are those of the folders to which the walk comes, and the sources are among them. -/
theorem havePaths_crawl {d : Disk} {root : RawText} {t : FileTree} (h : d.find root = .ok t)
    (extensions : List String) :
    HavePaths (fun path => ∃ v ∈ t.visits root, path ∈ v.paths) (crawl d root extensions) := by
  rw [crawl_of_find h]
  refine foldl_creditVisit (Q := HavePaths _) (by simp [HavePaths]) fun v hv name hname _ _ _ hfound => ?_
  exact hfound.credit ⟨v, hv, List.mem_map.2 ⟨name, hname, rfl⟩⟩

theorem sources_subset_files {d : Disk} {root : RawText} {extensions : List String} {s : Submission}
    (hs : s ∈ crawl d root extensions) : s.sources ⊆ s.files := by
  cases hf : d.find root with
  | error e => simp [crawl, hf] at hs
  | ok t => exact (havePaths_crawl hf extensions s hs).1

/-- The files of a crawl through a sound folder have paths without null characters. -/
theorem hasNull_of_mem_crawl_of_find {d : Disk} {root : RawText} {t : FileTree} (hf : d.find root = .ok t)
    (ht : t.IsSound) (hr : Path.hasNull root = false) {extensions : List String} {s : Submission}
    (hs : s ∈ crawl d root extensions) : ∀ path ∈ s.sources, Path.hasNull path = false := by
  intro path hp
  obtain ⟨hsub, hfiles⟩ := havePaths_crawl hf extensions s hs
  obtain ⟨v, hv, hpath⟩ := hfiles path (hsub hp)
  exact ht.hasNull_of_mem_visits hr hv hpath

/-- The files of a crawl in a sound tree have paths without null characters. -/
theorem hasNull_of_mem_crawl {d : Disk} (hd : d.tree.IsSound) {root : RawText} (hr : Path.hasNull root = false)
    {extensions : List String} {s : Submission} (hs : s ∈ crawl d root extensions) :
    ∀ path ∈ s.sources, Path.hasNull path = false := by
  cases hf : d.find root with
  | error e => simp [crawl, hf] at hs
  | ok t => exact hasNull_of_mem_crawl_of_find hf (Disk.isSound_of_find hd hf) hr hs

end Semblance
