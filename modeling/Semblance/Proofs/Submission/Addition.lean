import Semblance.Proofs.Submission.Grouping

/-!
# One more submission

A folder gets one more entry, under a new name.  The submissions in it are then the old ones and perhaps one with the
new name, so leaving that one out gives the old submissions in their order (`submissionsIn_eq`).  The paths of their
files lead where they led before (`find_of_mem_files`), and a walk goes too deep afterwards if it did so before or
does in the new entry (`isTooDeep_eq_false_iff`).
-/

namespace Semblance

/-- The entries `entries'` are `entries` and one more, wherever it stands among the others.  The names are different
in each folder, and such as an entry can have. -/
structure FileTree.IsAddition (name : RawText) (new : FileTree) (entries entries' : List (RawText × FileTree)) :
    Prop where
  perm : entries'.Perm ((name, new) :: entries)
  isSound : (folder entries').IsSound
  isProper : (folder entries').IsProper

namespace FileTree

theorem greatestDepth_le_iff {shown : RawText} {entries : List (RawText × FileTree)} {n : Nat} :
    greatestDepth shown entries ≤ n ↔ ∀ e ∈ entries, e.2.walkDepth (Path.join shown e.1) ≤ n := by
  induction entries with
  | nil => simp [greatestDepth]
  | cons e rest ih => simp [greatestDepth, ih]

namespace IsAddition

variable {name : RawText} {new : FileTree} {entries entries' : List (RawText × FileTree)}
  (h : IsAddition name new entries entries')

include h

theorem nodup : (entries'.map Prod.fst).Nodup :=
  h.isSound.nodup_entries

theorem nodup_cons : (name :: entries.map Prod.fst).Nodup :=
  (h.perm.map Prod.fst).nodup_iff.1 h.nodup

theorem mem_iff {n : RawText} {t : FileTree} : (n, t) ∈ entries ↔ (n, t) ∈ entries' ∧ n ≠ name := by
  obtain ⟨hname, -⟩ := List.nodup_cons.1 h.nodup_cons
  rw [h.perm.mem_iff, List.mem_cons, Prod.mk.injEq]
  constructor
  · intro hmem
    refine ⟨.inr hmem, ?_⟩
    rintro rfl
    exact hname (List.mem_map.2 ⟨_, hmem, rfl⟩)
  · rintro ⟨⟨hn, -⟩ | hmem, hne⟩
    · exact absurd hn hne
    · exact hmem

theorem isSound_entries : (folder entries).IsSound :=
  .folder h.nodup_cons.of_cons (fun e he => (h.isSound.of_mem_entries e (h.mem_iff.1 he).1).1)
    fun e he => (h.isSound.of_mem_entries e (h.mem_iff.1 he).1).2

theorem isProper_entries : (folder entries).IsProper :=
  .folder (fun e he => (h.isProper.of_mem_entries e (h.mem_iff.1 he).1).1)
    fun e he => (h.isProper.of_mem_entries e (h.mem_iff.1 he).1).2

theorem lookup_eq {n : RawText} (hn : n ≠ name) : entries.lookup n = entries'.lookup n := by
  apply Option.ext
  intro t
  rw [lookup_eq_some_iff_mem h.nodup_cons.of_cons, lookup_eq_some_iff_mem h.nodup, h.mem_iff]
  exact and_iff_left hn

theorem fileNames_eq : fileNames entries = (fileNames entries').filter (· ≠ name) := by
  apply (pairwise_fileNames h.nodup_cons.of_cons).eq_of_mem_iff ((pairwise_fileNames h.nodup).filter _)
  intro n
  rw [List.mem_filter, mem_fileNames, mem_fileNames, decide_eq_true_eq, ← exists_and_right]
  exact exists_congr fun t => by rw [h.mem_iff, and_right_comm]

theorem subvisits_eq (shown : RawText) :
    sortByName (subvisits shown entries) = (sortByName (subvisits shown entries')).filter (·.1 ≠ name) := by
  have : Std.Asymm fun a b : RawText × List Visit => a.1 < b.1 := ⟨fun _ _ => lt_asymm⟩
  have hsorted := pairwise_subvisits h.nodup_cons.of_cons shown
  apply hsorted.eq_of_mem_iff ((pairwise_subvisits h.nodup shown).filter _)
  rintro ⟨n, found⟩
  rw [List.mem_filter, mem_sortByName, mem_sortByName, mem_subvisits, mem_subvisits, decide_eq_true_eq,
    ← exists_and_right]
  exact exists_congr fun t => by rw [h.mem_iff, and_right_comm]

/-- The submissions of a folder are those after the addition, without the new one. -/
theorem submissionsIn_eq (chosen : List String) (shown : RawText) :
    submissionsIn chosen shown entries = (submissionsIn chosen shown entries').filter (·.submitter ≠ name) := by
  simp only [submissionsIn, h.fileNames_eq, h.subvisits_eq shown, List.filter_append, List.filter_map,
    List.filter_filter, Function.comp_def, submitter_submissionOf, Bool.and_comm]
  rfl

end IsAddition

end FileTree

section Reach

variable {d d' : Disk} {shown root name : RawText} {new : FileTree} {entries entries' : List (RawText × FileTree)}

/-! ### The old files are found where they were -/

/-- All files below a folder are reached in the same way on two disks that agree on the folder. -/
theorem FileTree.IsProper.reach_of_mem_visits {t : FileTree} (ht : t.IsProper) (hs : shown ≠ [])
    (h : d.reach shown = d'.reach shown) {v : Visit} (hv : v ∈ t.visits shown) {path : RawText}
    (hp : path ∈ v.paths) : d.reach path = d'.reach path := by
  induction ht generalizing shown with
  | file => simp [visits] at hv
  | locked => simp [visits] at hv
  | folder hn ht ih =>
    obtain ⟨-, rfl | ⟨name, t, hmem, -, hv⟩⟩ := mem_visits_folder.1 hv
    · obtain ⟨name, hname, rfl⟩ := List.mem_map.1 hp
      obtain ⟨t, hmem, -⟩ := mem_fileNames.1 hname
      exact Disk.reach_join_congr hs (hn _ hmem) h
    · exact ih _ hmem (Path.join_ne_nil hs name) (Disk.reach_join_congr hs (hn _ hmem) h) hv

namespace FileTree.IsAddition

variable (h : IsAddition name new entries entries') (hd : d.find root = .ok (folder entries))
  (hd' : d'.find root = .ok (folder entries'))

include h hd hd'

/-- The submissions of a crawl are those after the addition, without the new one. -/
theorem crawl_eq (extensions : List String) :
    crawl d root extensions = (crawl d' root extensions).filter (·.submitter ≠ name) := by
  rw [crawl_eq_submissionsIn hd h.isSound_entries h.isProper_entries,
    crawl_eq_submissionsIn hd' h.isSound h.isProper, h.submissionsIn_eq]

/-- The files of the old submissions are found in the same way after the addition. -/
theorem find_of_mem_files {extensions : List String} {s : Submission} (hmem : s ∈ crawl d root extensions)
    {path : RawText} (hp : path ∈ s.files) : d.find path = d'.find path := by
  obtain ⟨-, hreach⟩ := Disk.find_eq_ok_iff.1 hd
  obtain ⟨-, hreach'⟩ := Disk.find_eq_ok_iff.1 hd'
  have hroot := Disk.ne_nil_of_find hd
  have hentry {n : RawText} {t : FileTree} (hn : (n, t) ∈ entries) :
      Path.IsEntryName n ∧ t.IsProper ∧ d.reach (Path.join root n) = d'.reach (Path.join root n) := by
    obtain ⟨hn', hne⟩ := h.mem_iff.1 hn
    obtain ⟨hname, hproper⟩ := h.isProper.of_mem_entries _ hn'
    exact ⟨hname, hproper, Disk.reach_join_of_lookup hroot hname hreach hreach' (h.lookup_eq hne)⟩
  suffices hsame : d.reach path = d'.reach path by
    rw [Disk.find_eq_checked, Disk.find_eq_checked, hsame]
  obtain ⟨v, hv, hpath⟩ := (havePaths_crawl hd extensions s hmem).2 path hp
  obtain ⟨-, rfl | ⟨name, t, hmem, -, hv⟩⟩ := mem_visits_folder.1 hv
  · obtain ⟨n, hn, rfl⟩ := List.mem_map.1 hpath
    obtain ⟨t, ht, -⟩ := mem_fileNames.1 hn
    exact (hentry ht).2.2
  · obtain ⟨-, hproper, hsame⟩ := hentry hmem
    exact hproper.reach_of_mem_visits (Path.join_ne_nil hroot name) hsame hv hpath

/-! ### The depth of the walk -/

/-- After the addition a walk is not too deep exactly if it was not, and neither is one through the new entry. -/
theorem isTooDeep_eq_false_iff (hsame : d'.host = d.host) :
    isTooDeep d' root = false ↔ isTooDeep d root = false ∧
      ∀ limit, d.host.walkLimit = some limit → new.walkDepth (Path.join root name) < limit := by
  have hlong := Disk.isTooLong_of_find hd
  have hdepth (n : Nat) : (folder entries').walkDepth root ≤ n ↔
      (folder entries).walkDepth root ≤ n ∧ new.walkDepth (Path.join root name) < n := by
    cases n with
    | zero => simp [walkDepth, hlong]
    | succ n =>
      simp only [walkDepth, hlong, Bool.false_eq_true, if_false, Nat.add_le_add_iff_right, greatestDepth_le_iff,
        h.perm.mem_iff, List.forall_mem_cons, Nat.lt_succ_iff]
      exact and_comm
  simp only [isTooDeep, hd, hd', hsame]
  cases d.host.walkLimit with
  | none => simp
  | some limit => simpa using hdepth limit

end FileTree.IsAddition

end Reach

end Semblance
