import Mathlib.Data.List.Count
import Semblance.Proofs.Submission.Walk

/-!
# The division of files among submitters

A crawl gives each file below a folder to one submitter: a file in the folder itself is its own submitter, any other
file belongs to the subfolder through which the walk gets to it (`isPartition_submissionsIn`).  What is asked of such
a division leaves only one (`IsPartition.unique`), so a crawl depends on nothing but the files to which a walk gets
(`crawl_partitions`).  A folder whose path is too long is passed over with all files below it, and no word is said
about that (`crawl_passes_over_file`).
-/

namespace Semblance

open FileTree

/-- The submissions in a folder that is shown as `root`: each file below it to which a walk gets is in one of them,
once. -/
structure IsPartition (root : RawText) (extensions : List String) (t : FileTree) (subs : List Submission) : Prop where
  /-- The submitters are the files in the folder and then its subfolders with any files below them. -/
  submitters : ∃ loose folders, subs.map Submission.submitter = loose ++ folders ∧
    loose.Pairwise (· < ·) ∧ (∀ name, name ∈ loose ↔ t.IsReached root [name]) ∧
    folders.Pairwise (· < ·) ∧ ∀ name, name ∈ folders ↔ ∃ rest, rest ≠ [] ∧ t.IsReached root (name :: rest)
  /-- The files of a submitter are those whose first name is the submitter's, in the order of a walk, and its sources
  are those among them whose last name has one of the extensions. -/
  files : ∀ s ∈ subs, ∃ chains : List (List RawText),
    chains.Pairwise ComesBefore ∧ (∀ names, names ∈ chains ↔ t.IsReached root names ∧ names.head? = some s.submitter) ∧
    s.files = chains.map (Path.along root) ∧
    s.sources = (chains.filter fun names =>
      names.getLast?.any (hasExtension (chosenExtensions extensions))).map (Path.along root)
  once : ∀ names, t.IsReached root names → (subs.flatMap Submission.files).count (Path.along root names) = 1

/-- A name has an extension in its last point and what follows, which can be read as text and is compared in lower
case. -/
theorem hasExtension_iff {extensions : List String} {name : RawText} :
    hasExtension extensions name ↔ ∃ e : String, Path.extension name = ↑e ∧ Text.lower e ∈ extensions := by
  unfold hasExtension
  cases h : (Path.extension name).decoded with
  | ok e =>
    have he := RawText.decoded_eq_ok_iff.1 h
    constructor
    · exact fun hmem => ⟨e, he, by simpa using hmem⟩
    · rintro ⟨e', he', hmem⟩
      obtain rfl := RawText.ofString_injective (he.symm.trans he')
      simpa using hmem
  | error run =>
    refine ⟨fun hfalse => absurd hfalse Bool.false_ne_true, ?_⟩
    rintro ⟨e, he, -⟩
    rw [RawText.decoded_eq_ok_iff.2 he] at h
    cases h

section Partition

variable {chosen : List String} {root : RawText} {entries : List (RawText × FileTree)}

theorem exists_reached_iff (hs : (folder entries).IsSound) {name : RawText} :
    (∃ t, (name, t) ∈ entries ∧ t.isFolder ∧ (t.visits (Path.join root name)).flatMap Visit.paths ≠ []) ↔
      ∃ rest, rest ≠ [] ∧ (folder entries).IsReached root (name :: rest) := by
  have hd := hs.nodup_entries
  constructor
  · rintro ⟨t, hmem, -, hne⟩
    obtain ⟨chains, hchains, hwalk⟩ := exists_isWalk (hs.of_mem_entries _ hmem).2 (Path.join root name)
    obtain ⟨rest, hrest⟩ := List.exists_mem_of_ne_nil chains (by simpa [hchains] using hne)
    have hreached := (hwalk.mem_iff rest).1 hrest
    exact ⟨rest, hreached.below, (isReached_cons hd hreached.below).2 ⟨t, hmem, hreached⟩⟩
  · rintro ⟨rest, hr, hreached⟩
    obtain ⟨t, hmem, hin⟩ := (isReached_cons hd hr).1 hreached
    obtain ⟨chains, hchains, hwalk⟩ := exists_isWalk (hs.of_mem_entries _ hmem).2 (Path.join root name)
    obtain ⟨inner, rfl⟩ := hin.exists_entries
    refine ⟨_, hmem, rfl, ?_⟩
    rw [hchains]
    simpa using List.ne_nil_of_mem ((hwalk.mem_iff rest).2 hin)

/-- The submitters are in the order of a walk. -/
theorem exists_submitters (chosen : List String) (hs : (folder entries).IsSound)
    (hlong : Path.isTooLong root = false) :
    ∃ loose folders, (submissionsIn chosen root entries).map Submission.submitter = loose ++ folders ∧
      loose.Pairwise (· < ·) ∧ (∀ name, name ∈ loose ↔ (folder entries).IsReached root [name]) ∧
      folders.Pairwise (· < ·) ∧
      ∀ name, name ∈ folders ↔ ∃ rest, rest ≠ [] ∧ (folder entries).IsReached root (name :: rest) := by
  have hd : (entries.map Prod.fst).Nodup := hs.nodup_entries
  refine ⟨fileNames entries, ((sortByName (subvisits root entries)).filter fun g =>
    !(g.2.flatMap Visit.paths).isEmpty).map Prod.fst, ?_, pairwise_fileNames hd, fun name => ?_, ?_, fun name => ?_⟩
  · simp only [submissionsIn, List.map_append, List.map_map, List.filter_map]
    congr 1
    · simp [Function.comp_def]
    · simp only [Function.comp_def, files_submissionOf, submitter_submissionOf]
  · rw [isReached_singleton hd, and_iff_left hlong]
  · exact List.pairwise_map.2 ((pairwise_subvisits hd root).filter _)
  · rw [← exists_reached_iff hs]
    simp only [List.mem_map, List.mem_filter, mem_sortByName, Prod.exists, mem_subvisits]
    constructor
    · rintro ⟨name, _, ⟨⟨t, hmem, hfolder, rfl⟩, hne⟩, rfl⟩
      exact ⟨t, hmem, hfolder, by simpa using hne⟩
    · rintro ⟨t, hmem, hfolder, hne⟩
      exact ⟨name, _, ⟨⟨t, hmem, hfolder, rfl⟩, by simpa using hne⟩, rfl⟩

/-- The files of a submission are those of a submitter, in the order of a walk. -/
theorem exists_chains (hs : (folder entries).IsSound) (hlong : Path.isTooLong root = false) {s : Submission}
    (hmem : s ∈ submissionsIn chosen root entries) :
    ∃ chains : List (List RawText), chains.Pairwise ComesBefore ∧
      (∀ names, names ∈ chains ↔ (folder entries).IsReached root names ∧ names.head? = some s.submitter) ∧
      s.files = chains.map (Path.along root) := by
  have hd := hs.nodup_entries
  rcases mem_submissionsIn.1 hmem with ⟨hname, hsub⟩ | ⟨t, ht, hfolder, -, hsub⟩
  · refine ⟨[[s.submitter]], by simp, fun names => ?_, ?_⟩
    · obtain ⟨t, ht, hfile⟩ := mem_fileNames.1 hname
      rw [List.mem_singleton]
      constructor
      · rintro rfl
        exact ⟨(isReached_singleton hd).2 ⟨hname, hlong⟩, rfl⟩
      · rintro ⟨hreached, hhead⟩
        obtain ⟨rest, rfl⟩ := List.head?_eq_some_iff.1 hhead
        by_contra hr
        obtain ⟨t', ht', hin⟩ := (isReached_cons hd (by simpa using hr)).1 hreached
        obtain ⟨inner, rfl⟩ := hin.exists_entries
        obtain rfl := eq_of_mem_of_mem hd ht ht'
        cases hfile
    · rw [hsub, files_submissionOf]
      rfl
  · obtain ⟨chains, hchains, hwalk⟩ := exists_isWalk (hs.of_mem_entries _ ht).2 (Path.join root s.submitter)
    refine ⟨chains.map (s.submitter :: ·), List.pairwise_map.2 (hwalk.sorted.imp .inside), fun names => ?_, ?_⟩
    · rw [List.mem_map]
      constructor
      · rintro ⟨rest, hrest, rfl⟩
        have hreached := (hwalk.mem_iff rest).1 hrest
        exact ⟨(isReached_cons hd hreached.below).2 ⟨t, ht, hreached⟩, rfl⟩
      · rintro ⟨hreached, hhead⟩
        obtain ⟨rest, rfl⟩ := List.head?_eq_some_iff.1 hhead
        by_cases hr : rest = []
        · subst hr
          obtain ⟨t', ht', hfile⟩ := mem_fileNames.1 ((isReached_singleton hd).1 hreached).1
          obtain rfl := eq_of_mem_of_mem hd ht ht'
          simp [hfile] at hfolder
        · obtain ⟨t', ht', hin⟩ := (isReached_cons hd hr).1 hreached
          obtain rfl := eq_of_mem_of_mem hd ht ht'
          exact ⟨rest, (hwalk.mem_iff rest).2 hin, rfl⟩
    · rw [hsub, files_submissionOf, hchains, List.map_map]
      rfl

/-- The sources of a submission are those of its files that have one of the extensions. -/
theorem sources_submissionOf {submitter : RawText} {visits : List Visit}
    (h : ∀ v ∈ visits, v.folder ≠ [] ∧ ∀ name ∈ v.names, Path.IsEntryName name) :
    (submissionOf chosen submitter visits).sources =
      (submissionOf chosen submitter visits).files.filter (hasExtension chosen) := by
  simp only [submissionOf, List.filter_map]
  congr 1
  refine List.filter_congr fun file hfile => ?_
  obtain ⟨v, hv, hmarked⟩ := List.mem_flatMap.1 hfile
  obtain ⟨name, hname, rfl⟩ := List.mem_map.1 hmarked
  obtain ⟨hfolder, hnames⟩ := h v hv
  simp only [Function.comp_apply, hasExtension, (hnames name hname).extension_join hfolder]

theorem FileTree.IsProper.names_of_mem_visits {t : FileTree} (h : t.IsProper) {shown : RawText} (hs : shown ≠ [])
    {v : Visit} (hv : v ∈ t.visits shown) : v.folder ≠ [] ∧ ∀ name ∈ v.names, Path.IsEntryName name := by
  induction h generalizing shown with
  | file => simp [visits] at hv
  | locked => simp [visits] at hv
  | folder hn ht ih =>
    obtain ⟨-, rfl | ⟨name, t, hmem, -, hv⟩⟩ := mem_visits_folder.1 hv
    · refine ⟨hs, fun name hname => ?_⟩
      obtain ⟨t, hmem, -⟩ := mem_fileNames.1 hname
      exact hn _ hmem
    · exact ih _ hmem (Path.join_ne_nil hs name) hv

theorem sources_eq_filter (hp : (folder entries).IsProper) (hroot : root ≠ []) {s : Submission}
    (hmem : s ∈ submissionsIn chosen root entries) : s.sources = s.files.filter (hasExtension chosen) := by
  rcases mem_submissionsIn.1 hmem with ⟨hname, hsub⟩ | ⟨t, ht, -, -, hsub⟩
  · obtain ⟨t, ht, -⟩ := mem_fileNames.1 hname
    have hentry := (hp.of_mem_entries _ ht).1
    rw [hsub]
    exact sources_submissionOf (by simpa using ⟨hroot, hentry⟩)
  · rw [hsub]
    refine sources_submissionOf fun v hv => ?_
    exact (hp.of_mem_entries _ ht).2.names_of_mem_visits (Path.join_ne_nil hroot s.submitter) hv

/-- A source is a file whose own name has one of the extensions. -/
theorem filter_hasExtension (hp : (folder entries).IsProper) (hroot : root ≠ []) {chains : List (List RawText)}
    (hchains : ∀ names ∈ chains, (folder entries).IsReached root names) (chosen : List String) :
    (chains.map (Path.along root)).filter (hasExtension chosen) =
      (chains.filter fun names => names.getLast?.any (hasExtension chosen)).map (Path.along root) := by
  rw [List.filter_map]
  congr 1
  refine List.filter_congr fun names hnames => ?_
  have hreached := hchains names hnames
  obtain ⟨init, name, rfl⟩ := (List.eq_nil_or_concat names).resolve_left hreached.below
  have hname : Path.IsEntryName name := hp.isEntryName_of_hasFile hreached.hasFile name (by simp)
  simp [hasExtension, Path.extension_along hroot hname]

/-- The path of a file is among the files of the submitter that its first name tells, and of no other. -/
theorem along_mem_files_iff (hs : (folder entries).IsSound) (hp : (folder entries).IsProper) (hroot : root ≠ [])
    (hlong : Path.isTooLong root = false) {s : Submission} (hmem : s ∈ submissionsIn chosen root entries)
    {names : List RawText} (hreached : (folder entries).IsReached root names) :
    Path.along root names ∈ s.files ↔ names.head? = some s.submitter := by
  obtain ⟨chains, -, hiff, hfiles⟩ := exists_chains hs hlong hmem
  rw [hfiles, List.mem_map]
  constructor
  · rintro ⟨names', hnames', hpath⟩
    obtain ⟨hreached', hhead⟩ := (hiff names').1 hnames'
    obtain rfl : names' = names :=
      Path.along_injective hroot hreached'.below hreached.below (hp.isEntryName_of_hasFile hreached'.hasFile)
        (hp.isEntryName_of_hasFile hreached.hasFile) hpath
    exact hhead
  · exact fun hhead => ⟨names, (hiff names).2 ⟨hreached, hhead⟩, rfl⟩

theorem nodup_submitters (hs : (folder entries).IsSound) :
    ((submissionsIn chosen root entries).map Submission.submitter).Nodup := by
  refine ((perm_names root entries).nodup_iff.2 hs.nodup_entries).sublist ?_
  rw [submissionsIn, List.map_append, List.map_map]
  refine .append (by simp [Function.comp_def]) ((List.filter_sublist.map _).trans ?_)
  simp [Function.comp_def]

theorem nodup_files (hs : (folder entries).IsSound) (hp : (folder entries).IsProper) (hroot : root ≠ [])
    (hlong : Path.isTooLong root = false) : ((submissionsIn chosen root entries).flatMap Submission.files).Nodup := by
  refine List.nodup_flatMap.2 ⟨fun s hmem => ?_, ?_⟩
  · obtain ⟨chains, hsorted, hiff, hfiles⟩ := exists_chains hs hlong hmem
    rw [hfiles]
    refine List.Nodup.map_on (fun names hnames names' hnames' hpath => ?_) (hsorted.imp ?_)
    · have hreached := ((hiff names).1 hnames).1
      have hreached' := ((hiff names').1 hnames').1
      exact Path.along_injective hroot hreached.below hreached'.below (hp.isEntryName_of_hasFile hreached.hasFile)
        (hp.isEntryName_of_hasFile hreached'.hasFile) hpath
    · rintro names _ hbefore rfl
      exact hbefore.asymm hbefore
  · refine (List.pairwise_map.1 (nodup_submitters hs)).imp_of_mem fun {s s'} hmem hmem' hne => ?_
    rintro path hpath hpath'
    obtain ⟨chains, -, hiff, hfiles⟩ := exists_chains hs hlong hmem
    rw [hfiles] at hpath
    obtain ⟨names, hnames, rfl⟩ := List.mem_map.1 hpath
    obtain ⟨hreached, hhead⟩ := (hiff names).1 hnames
    rw [along_mem_files_iff hs hp hroot hlong hmem' hreached, hhead] at hpath'
    exact hne (Option.some.inj hpath')

theorem isPartition_submissionsIn (extensions : List String) (hs : (folder entries).IsSound)
    (hp : (folder entries).IsProper) (hroot : root ≠ []) (hlong : Path.isTooLong root = false) :
    IsPartition root extensions (folder entries) (submissionsIn (chosenExtensions extensions) root entries) := by
  refine ⟨exists_submitters _ hs hlong, fun s hmem => ?_, fun names hreached => ?_⟩
  · obtain ⟨chains, hsorted, hiff, hfiles⟩ := exists_chains hs hlong hmem
    refine ⟨chains, hsorted, hiff, hfiles, ?_⟩
    rw [sources_eq_filter hp hroot hmem, hfiles]
    exact filter_hasExtension hp hroot (fun names hnames => ((hiff names).1 hnames).1) _
  · obtain ⟨loose, folders, hsubmitters, -, hmemLoose, -, hmemFolders⟩ :=
      exists_submitters (chosenExtensions extensions) hs hlong
    obtain ⟨name, rest, rfl⟩ := List.exists_cons_of_ne_nil hreached.below
    have hname : name ∈ loose ++ folders := by
      rw [List.mem_append, hmemLoose, hmemFolders]
      by_cases hr : rest = []
      · exact .inl (hr ▸ hreached)
      · exact .inr ⟨rest, hr, hreached⟩
    obtain ⟨s, hmem, rfl⟩ := List.mem_map.1 (hsubmitters ▸ hname)
    refine List.count_eq_one_of_mem (nodup_files hs hp hroot hlong) (List.mem_flatMap.2 ⟨s, hmem, ?_⟩)
    exact (along_mem_files_iff hs hp hroot hlong hmem hreached).2 rfl

end Partition

/-- Where a walk gets to no file there are no submitters. -/
theorem isPartition_nil {root : RawText} {t : FileTree} (h : ∀ names, ¬ t.IsReached root names)
    (extensions : List String) : IsPartition root extensions t [] := by
  refine ⟨⟨[], [], rfl, .nil, fun name => ?_, .nil, fun name => ?_⟩, by simp, fun names hreached => ?_⟩
  · simp [h]
  · simp [h]
  · exact absurd hreached (h names)

theorem isPartition_crawl {d : Disk} {root : RawText} {t : FileTree} (hfind : d.find root = .ok t) (hs : t.IsSound)
    (hp : t.IsProper) (extensions : List String) : IsPartition root extensions t (crawl d root extensions) := by
  cases t with
  | folder entries =>
    rw [crawl_eq_submissionsIn hfind hs hp]
    exact isPartition_submissionsIn extensions hs hp (Disk.ne_nil_of_find hfind) (Disk.isTooLong_of_find hfind)
  | _ =>
    rw [crawl_of_find hfind]
    exact isPartition_nil (fun names hreached => by simpa using hreached.exists_entries) extensions

/-- The files to which a walk gets leave only one way to divide them. -/
theorem IsPartition.unique {root : RawText} {extensions : List String} {t t' : FileTree} {subs subs' : List Submission}
    (h : IsPartition root extensions t subs) (h' : IsPartition root extensions t' subs')
    (hsame : ∀ names, t.IsReached root names ↔ t'.IsReached root names) : subs = subs' := by
  have hsubmitters : subs.map Submission.submitter = subs'.map Submission.submitter := by
    obtain ⟨loose, folders, hsubs, hloose, hmemLoose, hfolders, hmemFolders⟩ := h.submitters
    obtain ⟨loose', folders', hsubs', hloose', hmemLoose', hfolders', hmemFolders'⟩ := h'.submitters
    have h1 : loose = loose' := hloose.eq_of_mem_iff hloose' fun name => by
      rw [hmemLoose, hmemLoose', hsame]
    have h2 : folders = folders' := hfolders.eq_of_mem_iff hfolders' fun name => by
      simp only [hmemFolders, hmemFolders', hsame]
    rw [hsubs, hsubs', h1, h2]
  have hone : ∀ s ∈ subs, ∀ s' ∈ subs', s.submitter = s'.submitter → s = s' := by
    intro s hmem s' hmem' he
    obtain ⟨chains, hsorted, hiff, hfiles, hsources⟩ := h.files s hmem
    obtain ⟨chains', hsorted', hiff', hfiles', hsources'⟩ := h'.files s' hmem'
    obtain rfl : chains = chains' := hsorted.eq_of_mem_iff hsorted' fun names => by
      rw [hiff, hiff', hsame, he]
    cases s
    cases s'
    simp_all
  refine List.ext_getElem (by simpa using congrArg List.length hsubmitters) fun i hi hi' =>
    hone _ (List.getElem_mem hi) _ (List.getElem_mem hi') ?_
  simpa [hi, hi'] using congrArg (·[i]?) hsubmitters

/-- A crawl fails only by its depth: if the walk tries to open a folder behind as many others as it can go through. -/
theorem crawl?_eq_walkTooDeep_iff {d : Disk} {root : RawText} {t : FileTree} (hfind : d.find root = .ok t)
    (hs : t.IsSound) (extensions : List String) :
    (crawl? d root extensions = .ok (crawl d root extensions) ∨ crawl? d root extensions = .error .walkTooDeep) ∧
      (crawl? d root extensions = .error .walkTooDeep ↔
        ∃ names, t.IsTried root names ∧ d.host.walkLimit = some names.length) := by
  have hnull := (Disk.find_eq_ok_iff.1 hfind).1
  have hdeep : isTooDeep d root ↔ ∃ names, t.IsTried root names ∧ d.host.walkLimit = some names.length := by
    unfold isTooDeep
    rw [hfind]
    cases d.host.walkLimit with
    | none => simp
    | some limit =>
      simp only [decide_eq_true_eq, lt_walkDepth_iff hs, Option.some.injEq]
      exact exists_congr fun names => by rw [and_comm, eq_comm]
  rw [← hdeep, crawl?, if_neg (by simp [hnull])]
  split
  · rename_i h
    simp [h]
  · rename_i h
    simp [h]

/-! ### Two folders -/

section Perm

variable {entries entries' : List (RawText × FileTree)}

/-- The order of entries makes no difference to the files to which a walk gets. -/
theorem FileTree.isReached_of_perm (hs : (FileTree.folder entries).IsSound) (h : entries'.Perm entries)
    (root : RawText) (names : List RawText) :
    (FileTree.folder entries').IsReached root names ↔ (FileTree.folder entries).IsReached root names := by
  have hd : (entries.map Prod.fst).Nodup := hs.nodup_entries
  have hd' : (entries'.map Prod.fst).Nodup := (hs.of_perm h).nodup_entries
  cases names with
  | nil => exact ⟨fun hr => absurd rfl hr.below, fun hr => absurd rfl hr.below⟩
  | cons name rest =>
    by_cases hr : rest = []
    · subst hr
      simp only [isReached_singleton hd, isReached_singleton hd', mem_fileNames, h.mem_iff]
    · simp only [isReached_cons hd hr, isReached_cons hd' hr, h.mem_iff]

end Perm

/-- The entries of a folder with a file, a folder that has files in two levels, a folder without any file, and one that
cannot be opened. -/
def mixedEntries : List (RawText × FileTree) :=
  [("d", .folder [("e", .folder [("2.JS", .file [])]), ("z.txt", .file [])]), ("c", .folder [("e", .folder [])]),
    ("b", .locked (.folder [("y.js", .file [])])), ("x.js", .file [])]

theorem isSound_mixedEntries : (folder mixedEntries).IsSound := by
  have he : (folder [("2.JS", .file [])]).IsSound := .folder (by simp) (by decide +kernel) (by simpa using .file _)
  have hc : (folder [("e", .folder [])]).IsSound :=
    .folder (by simp) (by decide +kernel) (by simpa using .folder (by simp) (by simp) (by simp))
  have hd : (folder [("e", .folder [("2.JS", .file [])]), ("z.txt", .file [])]).IsSound :=
    .folder (by simp) (by decide +kernel) (by simpa using ⟨he, .file _⟩)
  have hb : (folder [("y.js", .file [])]).IsSound := .folder (by simp) (by decide +kernel) (by simpa using .file _)
  exact .folder (by simp [mixedEntries]) (by decide +kernel)
    (by simpa [mixedEntries] using ⟨hd, hc, .locked hb, .file _⟩)

theorem isProper_mixedEntries : (folder mixedEntries).IsProper := by
  have hname : ∀ name ∈ (["d", "e", "2.JS", "z.txt", "c", "b", "y.js", "x.js"] : List RawText),
      Path.IsEntryName name := by decide +kernel
  have he : (folder [("2.JS", .file [])]).IsProper := .folder (by simp [hname]) (by simpa using .file _)
  have hc : (folder [("e", .folder [])]).IsProper :=
    .folder (by simp [hname]) (by simpa using .folder (by simp) (by simp))
  have hd : (folder [("e", .folder [("2.JS", .file [])]), ("z.txt", .file [])]).IsProper :=
    .folder (by simp [hname]) (by simpa using ⟨he, .file _⟩)
  have hb : (folder [("y.js", .file [])]).IsProper := .folder (by simp [hname]) (by simpa using .file _)
  exact .folder (by simp [mixedEntries, hname]) (by simpa [mixedEntries] using ⟨hd, hc, .locked hb, .file _⟩)

/-- A crawl divides the files below a folder to which a walk gets among their submitters, and neither the order of the
entries of any folder nor anything else but these files makes a difference to it.  It fails only where the walk would
have to go through more folders than it can. -/
theorem crawl_partitions {d : Disk} {root : RawText} {t : FileTree} (extensions : List String)
    (hfind : d.find root = .ok t) (hs : t.IsSound) (hp : t.IsProper) :
    IsPartition root extensions t (crawl d root extensions) ∧
      (crawl? d root extensions = .ok (crawl d root extensions) ∨ crawl? d root extensions = .error .walkTooDeep) ∧
      (crawl? d root extensions = .error .walkTooDeep ↔
        ∃ names, t.IsTried root names ∧ d.host.walkLimit = some names.length) ∧
      ∀ (d' : Disk) (t' : FileTree), d'.find root = .ok t' → t'.IsSound → t'.IsProper →
        (∀ names, t'.IsReached root names ↔ t.IsReached root names) →
        crawl d' root extensions = crawl d root extensions := by
  obtain ⟨hcases, hdeep⟩ := crawl?_eq_walkTooDeep_iff hfind hs extensions
  refine ⟨isPartition_crawl hfind hs hp extensions, hcases, hdeep, fun d' t' hfind' hs' hp' hsame => ?_⟩
  exact (isPartition_crawl hfind' hs' hp' extensions).unique (isPartition_crawl hfind hs hp extensions) hsame

/-- The submitters of the mixed folder, whatever the order of its entries. -/
theorem crawl_partitions_mixed :
    let d : Disk := { tree := .folder [("s", .folder mixedEntries)], host := { walkLimit := some 3 } }
    let d' : Disk := { tree := .folder [("s", .folder mixedEntries.reverse)] }
    d.find "s" = .ok (.folder mixedEntries) ∧ IsPartition "s" [".Js"] (.folder mixedEntries) (crawl d "s" [".Js"]) ∧
      crawl d' "s" [".Js"] = crawl d "s" [".Js"] ∧
      crawl? d "s" [".Js"] =
        .ok [⟨"x.js", ["s/x.js"], ["s/x.js"]⟩, ⟨"d", ["s/d/e/2.JS"], ["s/d/z.txt", "s/d/e/2.JS"]⟩] := by
  intro d d'
  have hfind : d.find "s" = .ok (.folder mixedEntries) := by rfl
  have hfind' : d'.find "s" = .ok (.folder mixedEntries.reverse) := by rfl
  have hperm : mixedEntries.reverse.Perm mixedEntries := List.reverse_perm _
  obtain ⟨hpart, -, -, hsame⟩ := crawl_partitions [".Js"] hfind isSound_mixedEntries isProper_mixedEntries
  refine ⟨hfind, hpart, ?_, ?_⟩
  · exact hsame d' _ hfind' (isSound_mixedEntries.of_perm hperm) (isProper_mixedEntries.of_perm hperm)
      (isReached_of_perm isSound_mixedEntries hperm "s")
  · have hnull : Path.hasNull "s" = false := by decide +kernel
    have hdeep : isTooDeep d "s" = false := by decide +kernel
    have hvisits : (folder mixedEntries).visits "s" =
        [⟨"s", ["x.js"]⟩, ⟨"s/c", []⟩, ⟨"s/c/e", []⟩, ⟨"s/d", ["z.txt"]⟩, ⟨"s/d/e", ["2.JS"]⟩] := by
      simp (disch := decide +kernel) only [visits_folder_of_nodup, subvisits, mixedEntries]
      decide +kernel
    rw [crawl?, hnull, hdeep, if_neg Bool.false_ne_true, if_neg Bool.false_ne_true, crawl_of_find hfind, hvisits]
    exact congrArg Except.ok (by decide +kernel)

/-! ### A path of slashes -/

/-- A number of slashes. -/
def slashes (n : Nat) : RawText :=
  List.replicate n Path.slash

theorem slashes_succ (n : Nat) : slashes (n + 1) = Path.slash :: slashes n :=
  List.replicate_succ

theorem byteSize_slashes (n : Nat) : (slashes n).byteSize = n := by
  induction n with
  | zero => rfl
  | succ n ih =>
    have hslash : Path.slash.byteSize = 1 := by decide
    rw [slashes_succ, RawText.byteSize, ih, hslash, Nat.add_comm]

theorem pieces_slashes (n : Nat) : Path.pieces (slashes n) = List.replicate (n + 1) [] := by
  induction n with
  | zero => rfl
  | succ n ih =>
    rw [slashes_succ, ← List.nil_append (Path.slash :: slashes n), Path.pieces_append_slash, ih]
    rfl

theorem pieces_append_slashes {name : RawText} (h : Path.slash ∉ name) (n : Nat) :
    Path.pieces (name ++ slashes (n + 1)) = name :: List.replicate (n + 1) [] := by
  rw [slashes_succ, Path.pieces_append_slash, Path.pieces_of_no_slash h, pieces_slashes]
  rfl

/-- Slashes at the end of a path make no difference to where it leads, if it leads to a folder. -/
theorem follow_slashes {p : Place} {entries : List (RawText × FileTree)} (h : p.here = .folder entries) (n : Nat) :
    Disk.follow p (List.replicate n []) = .ok p := by
  induction n with
  | zero => rfl
  | succ n ih =>
    rw [List.replicate_succ, Disk.follow, h]
    exact ih

theorem byteSize_root (n : Nat) : (("s" : RawText) ++ slashes n).byteSize = n + 1 := by
  rw [RawText.byteSize_append, byteSize_slashes, Nat.add_comm]
  rfl

/-- With any number of slashes that a path can have, the folder is the same. -/
theorem find_root {entries : List (RawText × FileTree)} {n : Nat} (hn : n < 4094) :
    ({ tree := .folder [("s", .folder entries)] } : Disk).find ("s" ++ slashes (n + 1)) = .ok (.folder entries) := by
  let top : FileTree := .folder [("s", .folder entries)]
  have hshort : Path.isTooLong ("s" ++ slashes (n + 1)) = false := by
    simp only [Path.isTooLong, byteSize_root, decide_eq_false_iff_not]
    omega
  have hslash : Path.slash ≠ RawChar.char '\x00' := by decide
  refine Disk.find_eq_ok_iff.2 ⟨by simp [slashes, Path.hasNull, RawText.ofString, hslash.symm], ?_⟩
  have hstart : ({ tree := top } : Disk).start ("s" ++ slashes (n + 1)) = .ok ⟨top, []⟩ := by
    have habsolute : Path.isAbsolute ("s" ++ slashes (n + 1)) = false := rfl
    rw [Disk.start, hshort, habsolute]
    rfl
  have hstep : Disk.follow ⟨top, []⟩ ["s"] = .ok ⟨.folder entries, [("s", top)]⟩ := rfl
  have hstay : Disk.follow ⟨.folder entries, [("s", top)]⟩ (List.replicate (n + 1) []) = .ok _ :=
    follow_slashes rfl (n + 1)
  have hfollow := Disk.follow_append ⟨top, []⟩ ["s"] (List.replicate (n + 1) [])
  rw [hstep] at hfollow
  rw [Disk.reach, Disk.locate, hstart, pieces_append_slashes (by decide)]
  exact congrArg (Except.map _) (hfollow.trans hstay)

/-- A file two levels below a folder to which a path of `4095` bytes leads is given to nobody. -/
theorem crawl_passes_over_file :
    let tree : FileTree := .folder [("a", .folder [("1.js", .file [])])]
    let d : Disk := { tree := .folder [("s", tree)] }
    let root := "s" ++ slashes 4094
    d.find root = .ok tree ∧ tree.IsSound ∧ tree.IsProper ∧ tree.HasFile ["a", "1.js"] ∧
      crawl? d root [] = .ok [] := by
  intro tree d root
  have hfind : d.find root = .ok tree := find_root (by decide : 4093 < 4094)
  have hsize : root.byteSize = 4095 := byteSize_root 4094
  clear_value root
  have hnull := (Disk.find_eq_ok_iff.1 hfind).1
  have hjoin : Path.isTooLong (Path.join root "a") := by
    have ha : RawText.byteSize "a" = 1 := by decide
    rw [Path.join_eq_append (Disk.ne_nil_of_find hfind), Path.isTooLong, RawText.byteSize_append, ha, Path.opening]
    have hone : RawText.byteSize [Path.slash] = 1 := by decide
    split <;> simp [hsize, hone]
  have hinner : (folder [("1.js", .file [])]).IsSound := .folder (by simp) (by decide +kernel) (by simpa using .file _)
  have hname : ∀ name ∈ (["a", "1.js"] : List RawText), Path.IsEntryName name := by decide +kernel
  have hinner' : (folder [("1.js", .file [])]).IsProper := .folder (by simp [hname]) (by simpa using .file _)
  have hsound : tree.IsSound := .folder (by simp) (by decide +kernel) (by simpa using hinner)
  have hproper : tree.IsProper := .folder (by simp [hname]) (by simpa using hinner')
  refine ⟨hfind, hsound, hproper, ⟨.file [], rfl, rfl⟩, ?_⟩
  have hdeep : isTooDeep d root = false := rfl
  have hvisits : tree.visits root = [⟨root, []⟩] := by
    have hlong := Disk.isTooLong_of_find hfind
    simp [tree, visits, subvisits, hlong, hjoin, sortByName, fileNames, FileTree.isFolder]
  rw [crawl?, hnull, hdeep, if_neg Bool.false_ne_true, if_neg Bool.false_ne_true, crawl_of_find hfind, hvisits]
  rfl

end Semblance
