import Semblance.Proofs.Scan.Accounting
import Semblance.Proofs.Submission.Sizes

/-!
# Large submissions in a scan

A file above the limit is passed over, and its bytes do not count for its submission any more.  So a submission above
the limit is left out of the comparison if each of its files is within the limit, or none; but if some are within, and
these are not too large together, it is compared by them alone (`evaluate_large_submissions`).
-/

namespace Semblance

open Text

/-- A scan leaves a submitter out: it reports an error, and lists no pair with the submitter. -/
def ScanResult.LeavesOut (r : ScanResult) (submitter : RawText) : Prop :=
  r.HasError submitter ∧ ∀ pair ∈ r.pairs, ¬ pair.Involves submitter

/-- The source files of a submission, given as paths with their texts, are stored in UTF-8 without carriage
returns. -/
structure HasSources (d : Disk) (s : Submission) (files : List (RawText × String)) : Prop where
  paths : s.sources = files.map Prod.fst
  stored : ∀ f ∈ files, d.find f.1 = .ok (.file (encode f.2))
  plain : ∀ f ∈ files, '\r' ∉ f.2.toList

/-- The files whose texts are within the limit. -/
def fittingFiles (cap : Number) (files : List (RawText × String)) : List (RawText × String) :=
  files.filter fun f => !cap.isBelow f.2.utf8ByteSize

variable {d : Disk} {o : ScanOptions} {cap least : Number} {p : Policy} {s : Submission}
  {files : List (RawText × String)}

/-! ### Which large submissions are accepted -/

theorem storedTexts_withinLimit (h : ∀ f ∈ files, '\r' ∉ f.2.toList) :
    storedTexts (withinLimit cap (files.map fun f => (f.1, encode f.2))) = fittingFiles cap files := by
  induction files with
  | nil => rfl
  | cons f files ih =>
    obtain ⟨hf, hfiles⟩ := List.forall_mem_cons.1 h
    rw [fittingFiles, List.filter_cons, ← fittingFiles, ← ih hfiles, storedTexts, withinLimit, List.map_cons,
      List.filter_cons]
    dsimp only
    rw [length_encode]
    split
    · rw [List.map_cons, readBytes_encode hf]
      rfl
    · rfl

/-- A submission is accepted with those of its files that are within the limit, if there are any and they are not too
large. -/
theorem HasSources.accepts_iff (h : HasSources d s files) (hs : CanBeAssessed d cap s) {text : String} :
    Accepts d cap s text ↔ fittingFiles cap files ≠ [] ∧ ¬ Oversized cap (fittingFiles cap files) ∧
      text = contentOf (fittingFiles cap files) := by
  have hstored : AreStored d (files.map fun f => (f.1, encode f.2)) := List.forall_mem_map.2 h.stored
  obtain ⟨loaded, hload, hcontent⟩ := exists_loadSubmission_of_stored cap hstored
  rw [storedTexts_withinLimit h.plain] at hcontent
  have hpaths : (files.map fun f => (f.1, encode f.2)).map Prod.fst = s.sources := by
    rw [h.paths, List.map_map]
    rfl
  rw [hpaths] at hload
  have haccepts : Accepts d cap s text ↔ s.sources ≠ [] ∧ text = loaded.content.text ∧ isBlankText text = false ∧
      cap.isBelow text.utf8ByteSize = false := by
    refine and_congr_right fun hne => ?_
    have heq : loaded.content = ↑text ↔ text = loaded.content.text := by
      constructor
      · intro he
        rw [he, RawText.text_ofString]
      · rintro rfl
        exact (hs hne loaded hload).2.ofString_text.symm
    simp only [hload, Except.ok.injEq, exists_eq_left', forall_isError_eq_false_iff, heq]
  have hblank : isBlankText "" := by decide
  rw [haccepts]
  by_cases hnil : fittingFiles cap files = []
  · -- nothing is put together
    have hempty : loaded.content.text = "" := by
      rw [hcontent, hnil]
      split <;> decide
    refine ⟨?_, fun h => absurd hnil h.1⟩
    rintro ⟨-, rfl, hfalse, -⟩
    rw [hempty, hblank] at hfalse
    cases hfalse
  have hsources : s.sources ≠ [] := by
    intro hs
    rw [h.paths, List.map_eq_nil_iff] at hs
    exact hnil (by rw [hs]; rfl)
  by_cases htotal : cap.isBelow (totalSize (fittingFiles cap files))
  · -- the content is dropped
    rw [if_pos htotal] at hcontent
    refine ⟨?_, fun h => absurd (.inl htotal) h.2.1⟩
    rintro ⟨-, rfl, hfalse, -⟩
    rw [hcontent] at hfalse
    exact absurd hfalse (by decide)
  · rw [if_neg htotal] at hcontent
    have hshown : loaded.content.text = contentOf (fittingFiles cap files) := by
      rw [hcontent, text_rawContent]
      rfl
    rw [Oversized, or_iff_right htotal, hshown]
    constructor
    · rintro ⟨-, rfl, -, hsize⟩
      exact ⟨hnil, Bool.eq_false_iff.1 hsize, rfl⟩
    · rintro ⟨-, hsize, rfl⟩
      exact ⟨hsources, rfl, isBlankText_contentOf hnil, Bool.eq_false_iff.2 hsize⟩

/-! ### What a scan leaves out -/

/-- A scan leaves out exactly the submissions that are accepted with no content. -/
theorem leavesOut_iff {r : ScanResult} (hr : Path.hasNull o.root = false)
    (ht : o.threshold.number? .lowerBound = .ok least) (hp : o.policy = .ok p) (hl : o.limit = .ok cap)
    (he : evaluate d o = .ok r) (hmem : s ∈ crawl d o.root o.extensions) :
    (r.HasError s.submitter ↔ ¬ ∃ text, Accepts d cap s text) ∧
      (r.LeavesOut s.submitter ↔ ¬ ∃ text, Accepts d cap s text) := by
  obtain ⟨assessments, -, hassess, hpairs, hanomalies⟩ := exists_survey_of_evaluate hr ht hp hl he
  have hnodup := nodup_crawl d o.root o.extensions
  have hsorted : (acceptedContents assessments).Pairwise fun a b => a.1 < b.1 :=
    pairwise_acceptedContents (map_submitter_of_assess hassess ▸ hnodup)
  have hcompared := mem_acceptedContents_iff_of_mem hassess hnodup hmem
  have herror : r.HasError s.submitter ↔ ¬ ∃ text, Accepts d cap s text := by
    rw [← hcompared, ScanResult.HasError, hanomalies]
    exact exists_error_iff hassess hnodup hmem
  refine ⟨herror, ?_⟩
  rw [ScanResult.LeavesOut, herror, and_iff_left_iff_imp]
  intro hnone pair hpair hinvolves
  rw [hpairs] at hpair
  exact hnone (hcompared.1 (mem_of_involves hsorted p (mem_rank.1 hpair).1 hinvolves))

/-- A submission above the limit is left out of a scan exactly if none of its files is within the limit, or those that
are within are too large together or with their headers; so it is left out if all of its files are within the limit,
or none.  In all other cases it is compared by its files within the limit alone, and no error is reported. -/
theorem evaluate_large_submissions (hd : d.tree.IsSound) (hr : Path.hasNull o.root = false)
    (ht : o.threshold.number? .lowerBound = .ok least) (hp : o.policy = .ok p) (hl : o.limit = .ok cap) :
    ((∃ r, evaluate d o = .ok r) ↔ IsScannable d o cap) ∧ ∀ r, evaluate d o = .ok r →
      (∀ r', (scan d o).1 = .ok r' → r'.pairs = r.pairs ∧ r'.anomalies = r.anomalies) ∧
      ∀ s ∈ crawl d o.root o.extensions, ∀ files, HasSources d s files → cap.isBelow (totalSize files) →
        (r.LeavesOut s.submitter ↔ fittingFiles cap files = [] ∨ Oversized cap (fittingFiles cap files)) ∧
        (fittingFiles cap files = files ∨ fittingFiles cap files = [] → r.LeavesOut s.submitter) ∧
        (¬ r.LeavesOut s.submitter →
          ¬ r.HasError s.submitter ∧ Compares d o cap s.submitter (contentOf (fittingFiles cap files))) := by
  have hgets := exists_evaluate_iff hd hr ht hp hl
  refine ⟨hgets, fun r he => ⟨(scan_of_evaluate he).2, fun s hmem files hfiles htotal => ?_⟩⟩
  obtain ⟨herror, hout⟩ := leavesOut_iff hr ht hp hl he hmem
  have hassessed := (hgets.1 ⟨r, he⟩).canBeAssessed s hmem
  have hnone : (¬ ∃ text, Accepts d cap s text) ↔
      fittingFiles cap files = [] ∨ Oversized cap (fittingFiles cap files) := by
    simp only [hfiles.accepts_iff hassessed, exists_and_left, exists_eq, and_true, not_and_or, not_not]
  rw [herror, hout, hnone]
  refine ⟨Iff.rfl, ?_, fun h => ⟨h, s, hmem, rfl, ?_⟩⟩
  · rintro (hall | hnil)
    · rw [hall]
      exact .inr (.inl htotal)
    · exact .inl hnil
  · obtain ⟨hnil, hsize⟩ := not_or.1 h
    exact (hfiles.accepts_iff hassessed).2 ⟨hnil, hsize, rfl⟩

/-! ### Bytes in one file and in two -/

/-- A folder with source files, given as names with their texts. -/
def sourceFolder (files : List (RawText × String)) : FileTree :=
  .folder (files.map fun f => (f.1, .file (encode f.2)))

/-- Three submissions, given as paths with their texts: a small file next to a large one, the small file alone, and
two files that are too large together. -/
def splitSources : List (RawText × List (RawText × String)) :=
  [("a", [("s/a/1.js", "x = 1;"), ("s/a/2.js", "y = 2; y = 3; y = 4; y = 5;")]), ("b", [("s/b/1.js", "x = 1;")]),
    ("c", [("s/c/1.js", "z = [1, 2, 3];"), ("s/c/2.js", "z = [4, 5, 6];")])]

/-- The folders of these submissions. -/
def splitFolders : List (RawText × FileTree) :=
  splitSources.map fun e => (e.1, sourceFolder (e.2.map fun f => (Path.baseName f.1, f.2)))

/-- A disk with these submissions. -/
def splitDisk : Disk where
  tree := .folder [("s", .folder splitFolders)]

/-- A scan of that disk with a limit that lets only the small file pass with its header. -/
def splitScan : ScanOptions :=
  { root := "s", limit := .ok (.whole 22) }

theorem isSound_sourceFolder {files : List (RawText × String)} (hnodup : (files.map Prod.fst).Nodup)
    (hnull : ∀ f ∈ files, Path.hasNull f.1 = false) : (sourceFolder files).IsSound := by
  refine .folder ?_ (List.forall_mem_map.2 hnull) (List.forall_mem_map.2 fun f _ => .file _)
  rwa [List.map_map]

theorem isSound_splitDisk : splitDisk.tree.IsSound := by
  have hnames : ∀ e ∈ splitSources, ((e.2.map fun f => (Path.baseName f.1, f.2)).map Prod.fst).Nodup ∧
      ∀ f ∈ e.2.map fun f => (Path.baseName f.1, f.2), Path.hasNull f.1 = false := by decide +kernel
  have hs : FileTree.IsSound (.folder splitFolders) := by
    refine .folder (by decide +kernel) (List.forall_mem_map.2 ?_) (List.forall_mem_map.2 fun e he => ?_)
    · decide +kernel
    · exact isSound_sourceFolder (hnames e he).1 (hnames e he).2
  exact .folder (by simp) (by decide +kernel) (by simpa using hs)

theorem crawl_splitDisk : crawl splitDisk splitScan.root splitScan.extensions =
    splitSources.map fun e => ⟨e.1, e.2.map Prod.fst, e.2.map Prod.fst⟩ := by
  have hfind : splitDisk.find "s" = .ok (.folder splitFolders) := by rfl
  have hvisits : (FileTree.folder splitFolders).visits "s" =
      [⟨"s", []⟩, ⟨"s/a", ["1.js", "2.js"]⟩, ⟨"s/b", ["1.js"]⟩, ⟨"s/c", ["1.js", "2.js"]⟩] := by
    simp (disch := decide +kernel) only [FileTree.visits_folder_of_nodup, FileTree.subvisits, splitFolders, splitSources,
      sourceFolder, List.map_cons, List.map_nil]
    decide +kernel
  change crawl splitDisk "s" [] = _
  rw [crawl_of_find hfind, hvisits]
  decide +kernel

theorem mem_crawl_splitDisk {e : RawText × List (RawText × String)} (h : e ∈ splitSources) :
    ⟨e.1, e.2.map Prod.fst, e.2.map Prod.fst⟩ ∈ crawl splitDisk splitScan.root splitScan.extensions := by
  rw [crawl_splitDisk]
  exact List.mem_map.2 ⟨e, h, rfl⟩

theorem isScannable_splitDisk : IsScannable splitDisk splitScan (.whole 22) := by
  have hnames : ∀ e ∈ splitSources, ∀ path ∈ e.2.map Prod.fst, (Path.baseName path).IsText := by decide +kernel
  refine ⟨rfl, ?_⟩
  rw [crawl_splitDisk, List.forall_mem_map]
  exact fun e he => canBeAssessed_of_isText (fun _ => rfl) (hnames e he)

theorem hasSources_splitDisk {e : RawText × List (RawText × String)} (h : e ∈ splitSources) :
    HasSources splitDisk ⟨e.1, e.2.map Prod.fst, e.2.map Prod.fst⟩ e.2 := by
  have hplain : ∀ e ∈ splitSources, ∀ f ∈ e.2, '\r' ∉ f.2.toList := by decide +kernel
  have hfind : ∀ e ∈ splitSources, ∀ f ∈ e.2, splitDisk.find f.1 = .ok (.file (encode f.2)) := by
    simp only [splitSources, List.forall_mem_cons, List.not_mem_nil, false_imp_iff, implies_true, and_true]
    exact ⟨⟨by rfl, by rfl⟩, by rfl, by rfl, by rfl⟩
  exact ⟨rfl, hfind e h, hplain e h⟩

theorem evaluate_large_submissions_split :
    ∃ r, evaluate splitDisk splitScan = .ok r ∧ r.LeavesOut "c" := by
  have hc : (↑"c", [(↑"s/c/1.js", "z = [1, 2, 3];"), (↑"s/c/2.js", "z = [4, 5, 6];")]) ∈ splitSources :=
    .tail _ (.tail _ (.head _))
  obtain ⟨hgets, hall⟩ :=
    evaluate_large_submissions (o := splitScan) isSound_splitDisk (by decide +kernel) rfl rfl rfl
  obtain ⟨r, he⟩ := hgets.2 isScannable_splitDisk
  obtain ⟨-, hlarge⟩ := hall r he
  obtain ⟨-, hleaves, -⟩ := hlarge _ (mem_crawl_splitDisk hc) _ (hasSources_splitDisk hc) (by decide +kernel)
  exact ⟨r, he, hleaves (.inl (by decide +kernel))⟩

/-- The files of the first submission hold `33` bytes, but it is not left out under a limit of `22`: the scan reports
no error in it, and lists it as plagiarized by its small file. -/
theorem evaluate_lists_large_submission :
    let files : List (RawText × String) := [("s/a/1.js", "x = 1;"), ("s/a/2.js", "y = 2; y = 3; y = 4; y = 5;")]
    ∃ r, evaluate splitDisk splitScan = .ok r ∧
      (∃ s ∈ crawl splitDisk splitScan.root splitScan.extensions, s.submitter = "a" ∧ HasSources splitDisk s files) ∧
      (Number.whole 22).isBelow (totalSize files) ∧ ¬ r.HasError "a" ∧
      ∃ pair ∈ r.pairs, pair.Involves "a" ∧ pair.report.verdict = .plagiarized := by
  intro files
  have ha : (↑"a", files) ∈ splitSources := .head _
  have hcontent : contentOf (fittingFiles (.whole 22) files) =
      contentOf (fittingFiles (.whole 22) [("s/b/1.js", "x = 1;")]) := by decide +kernel
  have hsize : ∀ e ∈ splitSources.take 2, fittingFiles (.whole 22) e.2 ≠ [] ∧
      ¬ Oversized (.whole 22) (fittingFiles (.whole 22) e.2) := by decide +kernel
  have haccepts {e : RawText × List (RawText × String)} (he : e ∈ splitSources.take 2) :
      Accepts splitDisk (.whole 22) ⟨e.1, e.2.map Prod.fst, e.2.map Prod.fst⟩
        (contentOf (fittingFiles (.whole 22) e.2)) := by
    have hmem := List.mem_of_mem_take he
    obtain ⟨hnil, hsize⟩ := hsize e he
    have hassessed := isScannable_splitDisk.canBeAssessed _ (mem_crawl_splitDisk hmem)
    exact ((hasSources_splitDisk hmem).accepts_iff hassessed).2 ⟨hnil, hsize, rfl⟩
  have hca : Compares splitDisk splitScan (.whole 22) "a" (contentOf (fittingFiles (.whole 22) files)) :=
    ⟨_, mem_crawl_splitDisk ha, rfl, haccepts (.head _)⟩
  have hcb : Compares splitDisk splitScan (.whole 22) "b"
      (contentOf (fittingFiles (.whole 22) [("s/b/1.js", "x = 1;")])) :=
    ⟨_, mem_crawl_splitDisk (.tail _ (.head _)), rfl, haccepts (.tail _ (.head _))⟩
  obtain ⟨r, he⟩ := (exists_evaluate_iff (o := splitScan) isSound_splitDisk (by decide +kernel) rfl rfl rfl).2
    isScannable_splitDisk
  have hout := isOutcome_of_evaluate (o := splitScan) (n := 0) (by decide +kernel) rfl rfl rfl he
  have hleaves := leavesOut_iff (o := splitScan) (by decide +kernel) rfl rfl rfl he (mem_crawl_splitDisk ha)
  obtain ⟨hoverall, hverdict⟩ := compareTexts_of_normalize_eq .adaptive
    (a := contentOf (fittingFiles (.whole 22) files)) (by decide +kernel) rfl
  refine ⟨r, he, ⟨_, mem_crawl_splitDisk ha, rfl, hasSources_splitDisk ha⟩, by decide +kernel, ?_, ?_⟩
  · rw [hleaves.1, not_not]
    exact ⟨_, haccepts (.head _)⟩
  · rw [← hcontent] at hcb
    refine ⟨_, (hout.pairs _).2 ⟨_, _, _, _, hca, hcb, by decide, ?_, rfl⟩, .inl rfl, hverdict⟩
    rw [hoverall]
    decide

end Semblance
