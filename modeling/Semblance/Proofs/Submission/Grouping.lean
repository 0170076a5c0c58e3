import Semblance.Proofs.Files.Chains
import Semblance.Proofs.Submission.Crawl

/-!
# The groups of a crawl

A crawl adds the files of one folder after the other to the submissions of their submitters.  A walk comes to all
folders below one entry before it comes to the next, and the path from the root to each of them begins with the name of
that entry.  So the submissions are the files in the root, and then the folders in it with all files below them
(`crawl_eq_submissionsIn`).
-/

namespace Semblance

open FileTree

/-! ### Paths from the root -/

namespace Path

variable {shown name : RawText}

theorem names_join (working : List RawText) (hs : shown ≠ []) (hn : IsEntryName name) :
    names working (join shown name) = names working shown ++ [name] := by
  obtain ⟨before, hjoin, hshown⟩ := pieces_join hs hn
  rw [names, names, hjoin, isAbsolute_join hs]
  rcases hshown with h | h <;> simp [h, hn.ne_nil, hn.ne_dot, hn.ne_dots]

theorem names_along (working : List RawText) (hs : shown ≠ []) {chain : List RawText}
    (hn : ∀ n ∈ chain, IsEntryName n) : names working (along shown chain) = names working shown ++ chain := by
  induction chain generalizing shown with
  | nil => simp
  | cons name rest ih =>
    obtain ⟨hname, hrest⟩ := List.forall_mem_cons.1 hn
    rw [along_cons, ih (join_ne_nil hs name) hrest, names_join working hs hname, List.append_assoc,
      List.singleton_append]

theorem shared_append (chain rest : List RawText) : shared chain (chain ++ rest) = chain.length := by
  induction chain with
  | nil => cases rest <;> rfl
  | cons name chain ih => simp [shared, ih]

/-- The path from a folder to what a chain leads to has the names of the chain. -/
theorem relative_along (working : List RawText) (hs : shown ≠ []) {chain : List RawText}
    (hn : ∀ n ∈ chain, IsEntryName n) :
    relative working (along shown chain) shown = match chain with
      | [] => dot
      | first :: rest => along first rest := by
  unfold relative
  simp only [names_along working hs hn, shared_append, Nat.sub_self, List.replicate_zero, List.nil_append,
    List.drop_left]
  cases chain <;> rfl

theorem pieces_along {first : RawText} {rest : List RawText} (hn : ∀ n ∈ first :: rest, IsEntryName n) :
    pieces (along first rest) = first :: rest := by
  obtain ⟨hfirst, hrest⟩ := List.forall_mem_cons.1 hn
  cases rest with
  | nil => exact pieces_of_no_slash hfirst.no_slash
  | cons next rest =>
    have hlast : first.getLast? ≠ some slash := fun h => hfirst.no_slash (List.mem_of_mem_getLast? h)
    rw [along_eq_append hfirst.ne_nil (List.cons_ne_nil next rest) hrest, opening, if_neg hlast, List.append_assoc,
      List.singleton_append, pieces_append_slash, pieces_of_no_slash hfirst.no_slash, pieces,
      List.splitOn_intercalate _ (fun n h => (hrest n h).no_slash) (List.cons_ne_nil next rest)]
    rfl

end Path

theorem submitterOf_relative_self (working : List RawText) {root : RawText} (hroot : root ≠ []) (name : RawText) :
    submitterOf (Path.relative working root root) name = name := by
  have hself : Path.relative working (Path.along root []) root = Path.dot :=
    Path.relative_along working hroot (List.forall_mem_nil _)
  rw [Path.along_nil] at hself
  rw [hself, submitterOf, if_pos rfl]

/-- A file below an entry of the root belongs to that entry. -/
theorem submitterOf_relative_along (working : List RawText) {root first : RawText} {rest : List RawText}
    (hroot : root ≠ []) (hn : ∀ n ∈ first :: rest, Path.IsEntryName n) (name : RawText) :
    submitterOf (Path.relative working (Path.along root (first :: rest)) root) name = first := by
  have hpieces := Path.pieces_along hn
  have hdot : Path.along first rest ≠ Path.dot := by
    intro h
    have hone : Path.pieces Path.dot = [Path.dot] := Path.pieces_of_no_slash (by decide)
    rw [h, hone] at hpieces
    exact (hn first (by simp)).ne_dot (List.head_eq_of_cons_eq hpieces).symm
  rw [Path.relative_along working hroot hn, submitterOf, if_neg hdot, hpieces, List.headD_cons]

/-- The folders to which a walk comes are those to which chains of proper names lead. -/
theorem FileTree.IsProper.exists_chain_of_mem_visits {t : FileTree} (h : t.IsProper) {shown : RawText} {v : Visit}
    (hv : v ∈ t.visits shown) : ∃ chain, (∀ n ∈ chain, Path.IsEntryName n) ∧ v.folder = Path.along shown chain := by
  induction h generalizing shown with
  | file => simp [visits] at hv
  | locked => simp [visits] at hv
  | folder hn ht ih =>
    obtain ⟨-, rfl | ⟨name, t, hmem, -, hv⟩⟩ := mem_visits_folder.1 hv
    · exact ⟨[], by simp, rfl⟩
    · obtain ⟨chain, hchain, hfolder⟩ := ih _ hmem hv
      exact ⟨name :: chain, List.forall_mem_cons.2 ⟨hn _ hmem, hchain⟩, hfolder⟩

/-! ### Files of one submitter -/

/-- The paths of the files in a folder, each with whether it is a source file. -/
def Visit.marked (chosen : List String) (v : Visit) : List (RawText × Bool) :=
  v.names.map fun name => (Path.join v.folder name, hasExtension chosen name)

/-- The submission that has all files of some folders. -/
def submissionOf (chosen : List String) (submitter : RawText) (visits : List Visit) : Submission :=
  let files := visits.flatMap (Visit.marked chosen)
  ⟨submitter, (files.filter (·.2)).map Prod.fst, files.map Prod.fst⟩

/-- Adds files to the submission of one submitter. -/
def creditAll (submitter : RawText) (files : List (RawText × Bool)) (found : List Submission) : List Submission :=
  files.foldl (fun found file => credit submitter file.1 file.2 found) found

section Credit

variable {submitter : RawText} {found : List Submission} {files : List (RawText × Bool)}

@[simp] theorem submitter_submissionOf (chosen : List String) (submitter : RawText) (visits : List Visit) :
    (submissionOf chosen submitter visits).submitter = submitter := rfl

theorem map_fst_marked (chosen : List String) (v : Visit) : (v.marked chosen).map Prod.fst = v.paths := by
  simp [Visit.marked, Visit.paths, Function.comp_def]

theorem files_submissionOf (chosen : List String) (submitter : RawText) (visits : List Visit) :
    (submissionOf chosen submitter visits).files = visits.flatMap Visit.paths := by
  simp [submissionOf, List.map_flatMap, map_fst_marked]

theorem credit_of_notMem {path : RawText} {isSource : Bool} (h : submitter ∉ found.map Submission.submitter) :
    credit submitter path isSource found = found ++ [⟨submitter, if isSource then [path] else [], [path]⟩] := by
  induction found with
  | nil => rfl
  | cons s rest ih =>
    simp only [List.map_cons, List.mem_cons, not_or] at h
    rw [credit, if_neg (Ne.symm h.1), ih h.2, List.cons_append]

theorem credit_append_singleton {sources paths : List RawText} {path : RawText} {isSource : Bool}
    (h : submitter ∉ found.map Submission.submitter) :
    credit submitter path isSource (found ++ [⟨submitter, sources, paths⟩]) =
      found ++ [⟨submitter, sources ++ (if isSource then [path] else []), paths ++ [path]⟩] := by
  induction found with
  | nil => simp [credit]
  | cons other rest ih =>
    simp only [List.map_cons, List.mem_cons, not_or] at h
    rw [List.cons_append, credit, if_neg (Ne.symm h.1), ih h.2, List.cons_append]

/-- Files of the submitter of the last submission are added to that one. -/
theorem creditAll_append_singleton {sources paths : List RawText} (h : submitter ∉ found.map Submission.submitter) :
    creditAll submitter files (found ++ [⟨submitter, sources, paths⟩]) =
      found ++ [⟨submitter, sources ++ (files.filter (·.2)).map Prod.fst, paths ++ files.map Prod.fst⟩] := by
  unfold creditAll
  induction files generalizing sources paths with
  | nil => simp
  | cons file files ih =>
    obtain ⟨path, isSource⟩ := file
    rw [List.foldl_cons, credit_append_singleton h, ih]
    cases isSource <;> simp

/-- Files of a submitter without a submission make a new one, if there are any. -/
theorem creditAll_of_notMem (h : submitter ∉ found.map Submission.submitter) :
    creditAll submitter files found = found ++ if files.isEmpty then [] else
      [⟨submitter, (files.filter (·.2)).map Prod.fst, files.map Prod.fst⟩] := by
  cases files with
  | nil => simp [creditAll]
  | cons file files =>
    obtain ⟨path, isSource⟩ := file
    rw [creditAll, List.foldl_cons, credit_of_notMem h]
    refine (creditAll_append_singleton h).trans ?_
    cases isSource <;> simp

end Credit

/-! ### Folders of one submitter -/

section Visits

variable {chosen : List String} {working : List RawText} {root : RawText} {found : List Submission}

/-- All files in some folders belong to one submitter. -/
def BelongTo (working : List RawText) (root submitter : RawText) (visits : List Visit) : Prop :=
  ∀ v ∈ visits, ∀ name, submitterOf (Path.relative working v.folder root) name = submitter

theorem foldl_creditVisit_eq_creditAll {submitter : RawText} {visits : List Visit}
    (h : BelongTo working root submitter visits) :
    visits.foldl (creditVisit working root chosen) found =
      creditAll submitter (visits.flatMap (Visit.marked chosen)) found := by
  unfold creditAll
  induction visits generalizing found with
  | nil => rfl
  | cons v visits ih =>
    obtain ⟨hv, hrest⟩ := List.forall_mem_cons.1 h
    rw [List.foldl_cons, ih hrest, List.flatMap_cons, List.foldl_append, Visit.marked, List.foldl_map]
    simp only [creditVisit, hv]

/-- The folders of a new submitter make one submission, if there are files in them. -/
theorem foldl_creditVisit_of_notMem {submitter : RawText} {visits : List Visit}
    (h : BelongTo working root submitter visits) (hnew : submitter ∉ found.map Submission.submitter) :
    visits.foldl (creditVisit working root chosen) found =
      found ++ [submissionOf chosen submitter visits].filter fun s => !s.files.isEmpty := by
  rw [foldl_creditVisit_eq_creditAll h, creditAll_of_notMem hnew]
  cases hempty : visits.flatMap (Visit.marked chosen) <;> simp [submissionOf, hempty]

/-- The folders of several new submitters, one submitter after the other. -/
theorem foldl_creditVisit_flatMap {groups : List (RawText × List Visit)}
    (h : ∀ g ∈ groups, BelongTo working root g.1 g.2)
    (hnew : (found.map Submission.submitter ++ groups.map Prod.fst).Nodup) :
    (groups.flatMap fun g => g.2).foldl (creditVisit working root chosen) found =
      found ++ (groups.map fun g => submissionOf chosen g.1 g.2).filter fun s => !s.files.isEmpty := by
  induction groups generalizing found with
  | nil => simp
  | cons g groups ih =>
    obtain ⟨hg, hrest⟩ := List.forall_mem_cons.1 h
    have hnot : g.1 ∉ found.map Submission.submitter := by
      intro hmem
      exact List.disjoint_of_nodup_append hnew hmem (by simp)
    have hsub : ([submissionOf chosen g.1 g.2].filter fun s => !s.files.isEmpty).Sublist
        [submissionOf chosen g.1 g.2] := List.filter_sublist
    rw [List.flatMap_cons, List.foldl_append, foldl_creditVisit_of_notMem hg hnot, ih hrest]
    · rw [List.append_assoc, ← List.filter_append, List.singleton_append, List.map_cons]
    · rw [List.map_append, List.append_assoc]
      rw [List.map_cons, ← List.singleton_append] at hnew
      exact hnew.sublist ((List.Sublist.refl _).append ((hsub.map _).append (.refl _)))

/-- The files in the root are their own submitters. -/
theorem creditVisit_root {names : List RawText} (hroot : root ≠ [])
    (hnew : (found.map Submission.submitter ++ names).Nodup) :
    creditVisit working root chosen found ⟨root, names⟩ =
      found ++ names.map fun name => submissionOf chosen name [⟨root, [name]⟩] := by
  unfold creditVisit
  dsimp only
  simp only [submitterOf_relative_self working hroot]
  induction names generalizing found with
  | nil => simp
  | cons name names ih =>
    have hnot : name ∉ found.map Submission.submitter := by
      intro hmem
      exact List.disjoint_of_nodup_append hnew hmem (by simp)
    rw [List.foldl_cons, credit_of_notMem hnot, ih (by simpa using hnew)]
    cases hsource : hasExtension chosen name <;> simp [submissionOf, Visit.marked, hsource]

end Visits

/-! ### The submissions of a crawl -/

namespace FileTree

/-- The names of a folder's entries are those of its files and those of its folders. -/
theorem perm_names (shown : RawText) (entries : List (RawText × FileTree)) :
    (fileNames entries ++ (sortByName (subvisits shown entries)).map Prod.fst).Perm (entries.map Prod.fst) := by
  refine ((List.mergeSort_perm _ _).append ((List.mergeSort_perm _ _).map _)).trans ?_
  rw [map_fst_subvisits, ← List.map_append]
  exact (List.perm_append_comm.trans (List.filter_append_perm _ entries)).map Prod.fst

theorem pairwise_fileNames {entries : List (RawText × FileTree)} (hd : (entries.map Prod.fst).Nodup) :
    (fileNames entries).Pairwise (· < ·) := by
  have hle : (fileNames entries).Pairwise (· ≤ ·) := List.pairwise_mergeSort' (· ≤ ·) _
  have hne : (fileNames entries).Nodup := ((perm_names [] entries).nodup_iff.2 hd).of_append_left
  exact hle.imp₂ (fun _ _ => lt_of_le_of_ne) hne

theorem pairwise_subvisits {entries : List (RawText × FileTree)} (hd : (entries.map Prod.fst).Nodup)
    (shown : RawText) : (sortByName (subvisits shown entries)).Pairwise fun a b => a.1 < b.1 := by
  have hsorted : ((sortByName (subvisits shown entries)).map Prod.fst).Nodup :=
    ((perm_names shown entries).nodup_iff.2 hd).of_append_right
  exact pairwise_sortByName (((List.mergeSort_perm _ _).map Prod.fst).nodup_iff.1 hsorted)

end FileTree

/-- The submissions in a folder: each file in it, and each folder in it with the files below, if there are any. -/
def submissionsIn (chosen : List String) (root : RawText) (entries : List (RawText × FileTree)) : List Submission :=
  (fileNames entries).map (fun name => submissionOf chosen name [⟨root, [name]⟩]) ++
    ((sortByName (subvisits root entries)).map fun g => submissionOf chosen g.1 g.2).filter fun s => !s.files.isEmpty

/-- A submission is a file among the entries, or a folder with files below it. -/
theorem mem_submissionsIn {chosen : List String} {root : RawText} {entries : List (RawText × FileTree)}
    {s : Submission} :
    s ∈ submissionsIn chosen root entries ↔
      s.submitter ∈ fileNames entries ∧ s = submissionOf chosen s.submitter [⟨root, [s.submitter]⟩] ∨
        ∃ t, (s.submitter, t) ∈ entries ∧ t.isFolder ∧ s.files ≠ [] ∧
          s = submissionOf chosen s.submitter (t.visits (Path.join root s.submitter)) := by
  simp only [submissionsIn, List.mem_append, List.mem_map, List.mem_filter]
  refine or_congr ⟨?_, ?_⟩ ⟨?_, ?_⟩
  · rintro ⟨name, hname, rfl⟩
    exact ⟨hname, rfl⟩
  · rintro ⟨hname, hs⟩
    exact ⟨s.submitter, hname, hs.symm⟩
  · rintro ⟨⟨⟨name, found⟩, hmem, rfl⟩, hne⟩
    obtain ⟨t, ht, hfolder, rfl⟩ := mem_subvisits.1 (mem_sortByName.1 hmem)
    exact ⟨t, ht, hfolder, by simpa using hne, rfl⟩
  · rintro ⟨t, ht, hfolder, hne, hs⟩
    refine ⟨⟨(s.submitter, _), mem_sortByName.2 (mem_subvisits.2 ⟨t, ht, hfolder, rfl⟩), hs.symm⟩, by simpa using hne⟩

/-- A crawl through a folder gives the files in it and then the folders in it, both in the order of their names. -/
theorem crawl_eq_submissionsIn {d : Disk} {root : RawText} {entries : List (RawText × FileTree)}
    (hfind : d.find root = .ok (folder entries)) (hs : (folder entries).IsSound) (hp : (folder entries).IsProper)
    (extensions : List String) :
    crawl d root extensions = submissionsIn (chosenExtensions extensions) root entries := by
  have hroot := Disk.ne_nil_of_find hfind
  have hlong := Disk.isTooLong_of_find hfind
  have hnodup := (perm_names root entries).nodup_iff.2 hs.nodup_entries
  have hgroups : ∀ g ∈ sortByName (subvisits root entries), BelongTo d.working root g.1 g.2 := by
    rintro ⟨name, found⟩ hg v hv n
    obtain ⟨t, ht, -, rfl⟩ := mem_subvisits.1 (mem_sortByName.1 hg)
    obtain ⟨hname, hproper⟩ := hp.of_mem_entries _ ht
    obtain ⟨chain, hchain, hfolder⟩ := hproper.exists_chain_of_mem_visits hv
    rw [hfolder, ← Path.along_cons]
    exact submitterOf_relative_along d.working hroot (List.forall_mem_cons.2 ⟨hname, hchain⟩) n
  rw [crawl_of_find hfind, visits, if_neg (by simp [hlong]), List.foldl_cons,
    creditVisit_root hroot (by simpa using hnodup.of_append_left), List.nil_append,
    foldl_creditVisit_flatMap hgroups (by simpa [Function.comp_def] using hnodup)]
  rfl

end Semblance
