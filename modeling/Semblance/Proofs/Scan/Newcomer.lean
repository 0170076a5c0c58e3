import Semblance.Proofs.Scan.Accounting
import Semblance.Proofs.Scan.BlankSubmissions
import Semblance.Proofs.Submission.Addition

/-!
# A newcomer to a scan

A file or folder is added to the folder that is scanned.  The old submissions are assessed as before, since their files
are found where they were (`survey_of_addition`).  Every later step works on each submission or each pair alone, or
sorts strictly by names or by scores and names, so it commutes with leaving the new submitter out.  So the new submitter
brings its own pairs and anomalies and disturbs no others, as long as the scan still gets through; it does not if the
walk goes too deep into the new entry, or a name in it can be neither printed nor encoded (`scan_of_addition`).
-/

namespace Semblance

/-! ### The old submissions are assessed as before -/

section Assess

variable {d d' : Disk}

theorem readSource_congr {path : RawText} (h : d.find path = d'.find path) (hhost : d'.host = d.host)
    (limit : SizeLimit) : readSource d path limit = readSource d' path limit := by
  unfold readSource
  rw [h, hhost]

variable {s : Submission} (h : ∀ path ∈ s.sources, d.find path = d'.find path) (hhost : d'.host = d.host)
  (limit : SizeLimit)

include h hhost

theorem loadSubmission_congr : loadSubmission d s.sources limit = loadSubmission d' s.sources limit := by
  unfold loadSubmission
  rw [mapM_congr fun path hp => by rw [readSource_congr (h path hp) hhost]]

theorem assess_congr : assess d limit s = assess d' limit s := by
  rw [assess, assess, loadSubmission_congr h hhost, hhost]

end Assess

/-- A new entry leaves a scan as able to get through as it was: the walk does not go too deep into it, and its
submission, if it has one, can be assessed. -/
structure IsHarmless (d : Disk) (o : ScanOptions) (cap : Number) (name : RawText) (new : FileTree) : Prop where
  not_too_deep : ∀ limit, d.host.walkLimit = some limit → new.walkDepth (Path.join o.root name) < limit
  canBeAssessed : ∀ s ∈ crawl d o.root o.extensions, s.submitter = name → CanBeAssessed d cap s

section Addition

variable {d d' : Disk} {o : ScanOptions} {name : RawText} {new : FileTree}
  {entries entries' : List (RawText × FileTree)} {cap : Number} {assessments : List Assessment}
  (h : FileTree.IsAddition name new entries entries')
  (hd : d.find o.root = .ok (.folder entries)) (hd' : d'.find o.root = .ok (.folder entries'))
  (hhost : d'.host = d.host)

include h hd hd'

theorem find_of_mem_sources {s : Submission} (hs : s ∈ crawl d o.root o.extensions) :
    ∀ path ∈ s.sources, d.find path = d'.find path :=
  fun _ hp => h.find_of_mem_files hd hd' hs (sources_subset_files hs hp)

include hhost

/-- After an addition a scan gets through exactly if it did before and the new entry is harmless. -/
theorem isScannable_addition_iff : IsScannable d' o cap ↔ IsScannable d o cap ∧ IsHarmless d' o cap name new := by
  have hcrawl := h.crawl_eq hd hd' o.extensions
  have hassessed {s : Submission} (hs : s ∈ crawl d o.root o.extensions) :
      CanBeAssessed d cap s ↔ CanBeAssessed d' cap s := by
    rw [CanBeAssessed, CanBeAssessed, loadSubmission_congr (find_of_mem_sources h hd hd' hs) hhost, hhost]
  have hdeep := h.isTooDeep_eq_false_iff hd hd' hhost
  constructor
  · rintro ⟨hnot, hall⟩
    obtain ⟨hold, hnew⟩ := hdeep.1 hnot
    refine ⟨⟨hold, fun s hs => (hassessed hs).2 (hall s ?_)⟩, ⟨hhost ▸ hnew, fun s hs _ => hall s hs⟩⟩
    rw [hcrawl] at hs
    exact (List.mem_filter.1 hs).1
  · rintro ⟨⟨hold, hall⟩, ⟨hnew, hone⟩⟩
    refine ⟨hdeep.2 ⟨hold, hhost ▸ hnew⟩, fun s hs => ?_⟩
    by_cases hname : s.submitter = name
    · exact hone s hs hname
    · have hs' : s ∈ crawl d o.root o.extensions := by
        rw [hcrawl]
        exact List.mem_filter.2 ⟨hs, by simpa using hname⟩
      exact (hassessed hs').1 (hall s hs')

/-- The assessments after an addition, without the new one, are those before it. -/
theorem survey_of_addition (hl : o.limit = .ok cap) (hs : survey d' o = .ok assessments) :
    survey d o = .ok (assessments.filter (·.submitter ≠ name)) := by
  obtain ⟨hnull, -⟩ := Disk.find_eq_ok_iff.1 hd
  obtain ⟨hnot, hassess⟩ := (survey_eq_ok_iff hnull hl).1 hs
  refine (survey_eq_ok_iff hnull hl).2 ⟨((h.isTooDeep_eq_false_iff hd hd' hhost).1 hnot).1, ?_⟩
  have hsame : ∀ s ∈ crawl d o.root o.extensions, assess d (.ok cap) s = assess d' (.ok cap) s :=
    fun s hmem => assess_congr (find_of_mem_sources h hd hd' hmem) hhost _
  rw [← mapM_eq_ok_iff, mapM_congr hsame, h.crawl_eq hd hd']
  exact mapM_filter_eq_ok (mapM_eq_ok_iff.2 hassess) fun s a ha => by rw [submitter_of_assess ha]

end Addition

/-! ### Every later step commutes with leaving a submitter out -/

section Restrict

variable (name : RawText) (assessments : List Assessment)

theorem anomalyEntries_filter :
    anomalyEntries (assessments.filter (·.submitter ≠ name)) = (anomalyEntries assessments).filter (·.1 ≠ name) := by
  simp only [anomalyEntries, List.filter_map, List.filter_filter, Function.comp_def, Bool.and_comm]

variable {assessments}

theorem acceptedContents_filter (h : (assessments.map Assessment.submitter).Nodup) :
    acceptedContents (assessments.filter (·.submitter ≠ name)) =
      (acceptedContents assessments).filter (·.1 ≠ name) := by
  have : Std.Asymm fun a b : RawText × String => a.1 < b.1 := ⟨fun _ _ => lt_asymm⟩
  have hfilter : ((assessments.filter (·.submitter ≠ name)).map Assessment.submitter).Nodup :=
    h.sublist (List.filter_sublist.map _)
  apply (pairwise_acceptedContents hfilter).eq_of_mem_iff ((pairwise_acceptedContents h).filter _)
  rintro ⟨submitter, content⟩
  rw [List.mem_filter, mem_acceptedContents, mem_acceptedContents, decide_eq_true_eq]
  constructor
  · rintro ⟨a, ha, rfl, hc⟩
    obtain ⟨ha, hne⟩ := List.mem_filter.1 ha
    exact ⟨⟨a, ha, rfl, hc⟩, by simpa using hne⟩
  · rintro ⟨⟨a, ha, rfl, hc⟩, hne⟩
    exact ⟨a, List.mem_filter.2 ⟨ha, by simpa using hne⟩, rfl, hc⟩

theorem allPairs_filter {α : Type} (keep : α → Bool) (l : List α) :
    allPairs (l.filter keep) = (allPairs l).filter fun e => keep e.1 && keep e.2 := by
  induction l with
  | nil => rfl
  | cons x rest ih =>
    rw [allPairs, List.filter_append, ← ih, List.filter_map, List.filter_cons]
    cases h : keep x with
    | false => simp [Function.comp_def, h]
    | true => simp [allPairs, Function.comp_def, h]

/-- The comparisons without a submitter are those that do not involve it. -/
theorem comparisons_filter (p : Policy) (contents : List (RawText × String)) :
    (allPairs (contents.filter (·.1 ≠ name))).map (comparePair p) =
      ((allPairs contents).map (comparePair p)).filter fun pair => ¬ pair.Involves name := by
  rw [allPairs_filter, List.filter_map]
  apply congrArg
  apply List.filter_congr
  intro e _
  rw [Bool.eq_iff_iff, Bool.and_eq_true, Function.comp_apply]
  simp only [decide_eq_true_iff, ← not_or]
  exact Iff.rfl

/-- Ranking keeps the places of the pairs among each other when some are left out. -/
theorem rank_filter {pairs : List (ComparedPair RawText)} (h : pairs.Pairwise ComparedPair.IsBefore) (least : Number)
    (keep : ComparedPair RawText → Bool) : rank least (pairs.filter keep) = (rank least pairs).filter keep := by
  have : Std.Asymm ComparedPair.Precedes := by
    constructor
    unfold ComparedPair.Precedes ComparedPair.IsBefore
    grind
  have hleft : (rank least (pairs.filter keep)).Pairwise ComparedPair.Precedes := pairwise_rank (h.filter keep) least
  have hright : (rank least pairs).Pairwise ComparedPair.Precedes := pairwise_rank h least
  apply hleft.eq_of_mem_iff (hright.filter keep)
  intro pair
  rw [List.mem_filter, mem_rank, mem_rank, List.mem_filter, and_right_comm]

end Restrict

/-- One more file or folder, under a new name, does not disturb the others.  Where the scan with it gets through, the
pairs that do not involve the new submitter are those that the scan gave without it, with their reports and in their
order, and so are the anomalies of the other submitters.  It gets through, if it did without it, exactly if the new
entry is harmless. -/
theorem scan_of_addition {d d' : Disk} {o : ScanOptions} {name : RawText} {new : FileTree}
    {entries entries' : List (RawText × FileTree)} {least cap : Number} {p : Policy}
    (h : FileTree.IsAddition name new entries entries') (hd : d.find o.root = .ok (.folder entries))
    (hd' : d'.find o.root = .ok (.folder entries')) (hhost : d'.host = d.host)
    (ht : o.threshold.number? .lowerBound = .ok least) (hp : o.policy = .ok p) (hl : o.limit = .ok cap)
    (ho : o.output = .ok "") :
    (∀ r', scan d' o = (.ok r', d') → ∃ r, scan d o = (.ok r, d) ∧
      r.pairs = r'.pairs.filter (fun pair => ¬ pair.Involves name) ∧
      r.anomalies = r'.anomalies.filter fun entry => entry.1 ≠ name) ∧
    ∀ r, scan d o = (.ok r, d) → ((∃ r', scan d' o = (.ok r', d')) ↔ IsHarmless d' o cap name new) := by
  obtain ⟨hnull, -⟩ := Disk.find_eq_ok_iff.1 hd'
  simp only [scan_of_output_eq_empty ho, Prod.mk.injEq, and_true]
  constructor
  · intro r' he'
    obtain ⟨assessments, hs', hassess, hpairs', hanomalies'⟩ := exists_survey_of_evaluate hnull ht hp hl he'
    have hs := survey_of_addition h hd hd' hhost hl hs'
    have hnodup : (assessments.map Assessment.submitter).Nodup :=
      map_submitter_of_assess hassess ▸ nodup_crawl d' o.root o.extensions
    obtain ⟨r, he, hpairs, hanomalies⟩ := evaluate_of_survey hs ht hp
    refine ⟨r, he, ?_, ?_⟩
    · have hbefore := pairwise_comparePair (pairwise_acceptedContents hnodup) p
      rw [hpairs, hpairs', acceptedContents_filter name hnodup, comparisons_filter, rank_filter hbefore]
    · rw [hanomalies, hanomalies', anomalyEntries_filter]
  · intro r he
    have hgets {d : Disk} {entries : List (RawText × FileTree)} (hfind : d.find o.root = .ok (.folder entries))
        (hsound : (FileTree.folder entries).IsSound) : (∃ r, evaluate d o = .ok r) ↔ IsScannable d o cap := by
      rw [exists_evaluate_iff_exists_survey ht hp]
      exact exists_survey_iff_of_hasNull hnull hl fun s hs => hasNull_of_mem_crawl_of_find hfind hsound hnull hs
    rw [hgets hd' h.isSound, isScannable_addition_iff h hd hd' hhost,
      and_iff_right ((hgets hd h.isSound_entries).1 ⟨r, he⟩)]

/-- The disk with two blank submissions and a third one, named between them. -/
def crowdedDisk : Disk where
  tree := .folder [("s", .folder [("b", blankFolder), ("aa", blankFolder), ("a", blankFolder)])]

/-- Two blank submissions get one more folder with a file of a proper name. -/
theorem isAddition_blank {name file : RawText} {bytes : List UInt8} {entries' : List (RawText × FileTree)}
    (hperm : entries'.Perm [(name, .folder [(file, .file bytes)]), ("a", blankFolder), ("b", blankFolder)])
    (hname : name ≠ "a" ∧ name ≠ "b")
    (hentry : ∀ n ∈ [name, file], Path.IsEntryName n ∧ Path.hasNull n = false) :
    FileTree.IsAddition name (.folder [(file, .file bytes)]) [("a", blankFolder), ("b", blankFolder)] entries' := by
  have hnames : ∀ n ∈ (["a", "b", "1.js"] : List RawText), Path.IsEntryName n ∧ Path.hasNull n = false := by
    decide +kernel
  simp only [List.forall_mem_cons, List.not_mem_nil, false_imp_iff, implies_true, and_true] at hnames hentry
  obtain ⟨⟨ha, hana⟩, ⟨hb, hbna⟩, hfile, hfna⟩ := hnames
  obtain ⟨⟨hn, hnna⟩, hf, hffna⟩ := hentry
  have hab : RawText.ofString "a" ≠ ↑"b" := by decide +kernel
  have hblank : blankFolder.IsSound := .folder (by simp) (by simpa using hfna) (by simpa using .file _)
  have hblank' : blankFolder.IsProper := .folder (by simpa using hfile) (by simpa using .file _)
  have hnew : (FileTree.folder [(file, .file bytes)]).IsSound :=
    .folder (by simp) (by simpa using hffna) (by simpa using .file _)
  have hnew' : (FileTree.folder [(file, .file bytes)]).IsProper := .folder (by simpa using hf) (by simpa using .file _)
  refine ⟨hperm, .of_perm (.folder ?_ ?_ ?_) hperm, .of_perm (.folder ?_ ?_) hperm⟩
  · simp [hname.1, hname.2, hab]
  · simp [hnna, hana, hbna]
  · simp [hnew, hblank]
  · simp [hn, ha, hb]
  · simp [hnew', hblank']

/-- The third submission leaves the pair of the other two as it was. -/
theorem scan_of_addition_between :
    ∃ r r', scan blankDisk { root := "s" } = (.ok r, blankDisk) ∧
      scan crowdedDisk { root := "s" } = (.ok r', crowdedDisk) ∧
      r.pairs = r'.pairs.filter (fun pair => ¬ pair.Involves "aa") ∧
      r.anomalies = r'.anomalies.filter (fun entry => entry.1 ≠ ↑"aa") ∧
      ∃ pair ∈ r.pairs, pair.submitter1 = "a" ∧ pair.submitter2 = "b" := by
  let entries' : List (RawText × FileTree) := [("b", blankFolder), ("aa", blankFolder), ("a", blankFolder)]
  have hfind : blankDisk.find "s" = .ok (.folder [("a", blankFolder), ("b", blankFolder)]) := by rfl
  have hfind' : crowdedDisk.find "s" = .ok (.folder entries') := by rfl
  have hadd : FileTree.IsAddition "aa" blankFolder [("a", blankFolder), ("b", blankFolder)] entries' :=
    isAddition_blank ((List.Perm.swap _ _ _).trans ((List.Perm.swap _ _ _).cons _)) (by decide +kernel)
      (by decide +kernel)
  obtain ⟨hkeeps, hgets⟩ := scan_of_addition (o := { root := "s" }) hadd hfind hfind' rfl rfl rfl rfl rfl
  obtain ⟨r, he, -, pair, hpair, h₁, h₂, -⟩ := exists_outcome_blankDisk
  have hscan := (scan_of_evaluate he).1 rfl
  have hvisits : (FileTree.folder entries').visits "s" =
      [⟨"s", []⟩, ⟨"s/a", ["1.js"]⟩, ⟨"s/aa", ["1.js"]⟩, ⟨"s/b", ["1.js"]⟩] := by
    simp (disch := decide +kernel) only [FileTree.visits_folder_of_nodup, FileTree.subvisits, entries', blankFolder]
    decide +kernel
  have hnames : ∀ s ∈ crawl crowdedDisk "s" [], ∀ path ∈ s.sources, (Path.baseName path).IsText := by
    rw [crawl_of_find hfind', hvisits]
    decide +kernel
  have hharmless : IsHarmless crowdedDisk { root := "s" } defaultLimit "aa" blankFolder :=
    ⟨fun limit hlimit => absurd hlimit (by simp [crowdedDisk]), fun s hs _ => canBeAssessed_of_isText (fun _ => rfl) (hnames s hs)⟩
  obtain ⟨r', hscan'⟩ := (hgets r hscan).2 hharmless
  obtain ⟨r₀, hr₀, hpairs, hanomalies⟩ := hkeeps r' hscan'
  obtain rfl : r₀ = r := Except.ok.inj (congrArg Prod.fst (hr₀.symm.trans hscan))
  exact ⟨r₀, r', hscan, hscan', hpairs, hanomalies, pair, hpair, h₁, h₂⟩

/-- The disk with two blank submissions and a third one that has a file with a stray byte in its name. -/
def strayDisk : Disk where
  tree := .folder [("s", .folder [("a", blankFolder), ("b", blankFolder), ("c", strayFolder)])]

/-- The file with the stray byte in its name takes away the pair of the other two submissions: the scan fails. -/
theorem scan_fails_on_stray_addition :
    ∃ r, scan blankDisk { root := "s" } = (.ok r, blankDisk) ∧ r.pairs ≠ [] ∧
      FileTree.IsAddition "c" strayFolder [("a", blankFolder), ("b", blankFolder)]
        [("a", blankFolder), ("b", blankFolder), ("c", strayFolder)] ∧
      scan strayDisk { root := "s" } = (.error (.encoding ⟨7, 127, 1⟩), strayDisk) := by
  let entries' : List (RawText × FileTree) := [("a", blankFolder), ("b", blankFolder), ("c", strayFolder)]
  have hfind : strayDisk.find "s" = .ok (.folder entries') := by rfl
  have hperm : entries'.Perm [("c", strayFolder), ("a", blankFolder), ("b", blankFolder)] :=
    ((List.Perm.swap _ _ _).cons _).trans (List.Perm.swap _ _ _)
  have hadd : FileTree.IsAddition "c" strayFolder [("a", blankFolder), ("b", blankFolder)] entries' :=
    isAddition_blank hperm (by decide +kernel) (by decide +kernel)
  obtain ⟨r, he, -, pair, hpair, -⟩ := exists_outcome_blankDisk
  refine ⟨r, (scan_of_evaluate he).1 rfl, List.ne_nil_of_mem hpair, hadd, ?_⟩
  have hvisits : (FileTree.folder entries').visits "s" =
      [⟨"s", []⟩, ⟨"s/a", ["1.js"]⟩, ⟨"s/b", ["1.js"]⟩, ⟨"s/c", [strayName]⟩] := by
    simp (disch := decide +kernel) only [FileTree.visits_folder_of_nodup, FileTree.subvisits, entries', blankFolder,
      strayFolder]
    decide +kernel
  have hcrawl : crawl strayDisk "s" [] = [⟨"a", ["s/a/1.js"], ["s/a/1.js"]⟩, ⟨"b", ["s/b/1.js"], ["s/b/1.js"]⟩,
      ⟨"c", ["s/c/" ++ strayName], ["s/c/" ++ strayName]⟩] := by
    rw [crawl_of_find hfind, hvisits]
    decide +kernel
  have hblank : ∀ e ∈ blankPaths, ∃ a, assess strayDisk (.ok defaultLimit) ⟨e.1, [e.2], [e.2]⟩ = .ok a := by
    have hnames : ∀ e ∈ blankPaths, Path.hasNull e.2 = false ∧ (Path.baseName e.2).IsText := by decide +kernel
    intro e he
    obtain ⟨hnull, htext⟩ := hnames e he
    exact (exists_assess_iff (by simpa using hnull)).2 (canBeAssessed_of_isText (fun _ => rfl) (by simpa using htext))
  obtain ⟨a, ha⟩ := hblank _ (.head _)
  obtain ⟨b, hb⟩ := hblank _ (.tail _ (.head _))
  have hc : assess strayDisk (.ok defaultLimit) ⟨"c", ["s/c/" ++ strayName], ["s/c/" ++ strayName]⟩ =
      .error (.encoding ⟨7, 127, 1⟩) := assess_strayName (by rfl) (by decide +kernel)
  have hsurvey : survey strayDisk { root := "s" } = .error (.encoding ⟨7, 127, 1⟩) := by
    rw [survey_eq (by decide +kernel), if_neg (by decide +kernel)]
    change (crawl strayDisk "s" []).mapM (assess strayDisk (.ok defaultLimit)) = _
    rw [hcrawl, List.mapM_cons, ha, List.mapM_cons, hb, List.mapM_cons, hc]
    rfl
  rw [scan_of_output_eq_empty rfl, evaluate, hsurvey]
  rfl

end Semblance
