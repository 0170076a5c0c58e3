import Semblance.Proofs.Scan.Outcome
import Semblance.Proofs.Submission.BlankFiles

/-!
# Blank submissions in a scan

A scan judges whether a submission is empty by its joined files, and these start with a header.  So a submission of
blank files is never reported as empty: it is kept out of the comparison only if its files are too large, and else it
is compared by its headers (`evaluate_blank_submissions`).
-/

namespace Semblance

open Lexeme Text

/-! ### Blank submissions -/

/-- A submission of a scan with at least one source file, all of whose source files can be read within the limit and
have nothing but white space. -/
structure IsBlankSubmission (d : Disk) (o : ScanOptions) (cap : Number) (s : Submission)
    (files : List (RawText × String)) : Prop where
  mem : s ∈ crawl d o.root o.extensions
  sources : s.sources = files.map Prod.fst
  ne_nil : files ≠ []
  read : ∀ f ∈ files, readSource d f.1 (.ok cap) = .ok (.ok f.2)
  blank : AllBlank files

namespace IsBlankSubmission

variable {d : Disk} {o : ScanOptions} {cap : Number} {s : Submission} {files : List (RawText × String)}

theorem sources_ne_nil (h : IsBlankSubmission d o cap s files) : s.sources ≠ [] := by
  rw [h.sources]
  simpa using h.ne_nil

/-- A blank submission is never found to be empty, and its size is the only error that it can have. -/
theorem exists_assess (h : IsBlankSubmission d o cap s files) (hs : CanBeAssessed d cap s) :
    ∃ a, assess d (.ok cap) s = .ok a ∧ .emptyFile ∉ a.anomalies ∧
      ((∃ x ∈ a.anomalies, x.isError) ↔ Oversized cap files) := by
  by_cases hfit : cap.isBelow (totalSize files)
  · have hload := loadSubmission_of_excess h.read hfit
    rw [← h.sources] at hload
    refine ⟨_, (assess_eq_ok_iff h.sources_ne_nil hload).2 ⟨hs h.sources_ne_nil _ hload, rfl⟩, ?_⟩
    simp [Assessment.ofLoaded, Loaded.found, Loaded.errors, Anomaly.isError, Oversized, hfit]
  · have hload := loadSubmission_of_read h.read (by simpa using hfit)
    rw [← h.sources] at hload
    obtain ⟨hempty, herror⟩ := anomalies_of_not_blank cap (isBlankText_contentOf h.ne_nil)
    refine ⟨_, (assess_eq_ok_iff h.sources_ne_nil hload).2 ⟨hs h.sources_ne_nil _ hload, rfl⟩, ?_⟩
    have hfound : (⟨rawContent files, [], none⟩ : Loaded).found cap = Semblance.anomalies (contentOf files) cap := by
      rw [contentOf, ← text_rawContent]
      rfl
    rw [anomalies_ofLoaded, hfound, Oversized, or_iff_right hfit, ← herror]
    exact ⟨hempty, Iff.rfl⟩

/-- A blank submission is compared by its headers, unless its files are too large. -/
theorem accepts_iff (h : IsBlankSubmission d o cap s files) (hs : CanBeAssessed d cap s) {text : String} :
    Accepts d cap s text ↔ ¬ Oversized cap files ∧ text = contentOf files := by
  rw [Accepts, and_iff_right h.sources_ne_nil]
  by_cases hfit : cap.isBelow (totalSize files)
  · have hload := loadSubmission_of_excess h.read hfit
    rw [← h.sources] at hload
    refine ⟨?_, fun hsize => absurd (.inl hfit) hsize.1⟩
    rintro ⟨loaded, hl, hcontent, hnone⟩
    obtain rfl := Except.ok.inj (hload.symm.trans hl)
    obtain rfl : "" = text := RawText.ofString_injective hcontent
    exact absurd (hnone .emptyFile (.head _)) (by decide)
  · have hload := loadSubmission_of_read h.read (by simpa using hfit)
    rw [← h.sources] at hload
    have hraw := rawContent_eq_of_isText (hs h.sources_ne_nil _ hload).2
    obtain ⟨-, herror⟩ := anomalies_of_not_blank cap (isBlankText_contentOf h.ne_nil)
    rw [Oversized, or_iff_right hfit, ← herror]
    constructor
    · rintro ⟨loaded, hl, hcontent, hnone⟩
      obtain rfl := Except.ok.inj (hload.symm.trans hl)
      obtain rfl := RawText.ofString_injective (hraw.symm.trans hcontent)
      refine ⟨?_, rfl⟩
      rintro ⟨a, ha, he⟩
      simp [hnone a ha] at he
    · rintro ⟨hnone, rfl⟩
      refine ⟨_, hload, hraw, fun a ha => ?_⟩
      by_contra he
      exact hnone ⟨a, ha, by simpa using he⟩

theorem compares_iff (hs : IsScannable d o cap) (h : IsBlankSubmission d o cap s files) {text : String} :
    Compares d o cap s.submitter text ↔ ¬ Oversized cap files ∧ text = contentOf files := by
  rw [← h.accepts_iff (hs.canBeAssessed s h.mem)]
  constructor
  · rintro ⟨s', hs', hsubmitter, ha⟩
    obtain rfl : s' = s := List.inj_on_of_nodup_map (nodup_crawl d o.root o.extensions) hs' h.mem hsubmitter
    exact ha
  · exact fun ha => ⟨s, h.mem, rfl, ha⟩

end IsBlankSubmission

/-! ### Blank submissions in the outcome -/

namespace IsOutcome

variable {d : Disk} {o : ScanOptions} {cap : Number} {n : Int} {p : Policy} {r : ScanResult}
  {s s' : Submission} {files files' : List (RawText × String)}

/-- The entry of a blank submission, if it has one, does not say that it is empty. -/
theorem exists_blank_entry (hr : IsOutcome d o cap n p r) (hs : IsScannable d o cap)
    (h : IsBlankSubmission d o cap s files) :
    ∃ odd : List Anomaly, (∀ found, (s.submitter, found) ∈ r.anomalies ↔ found ≠ [] ∧ found = odd) ∧
      .emptyFile ∉ odd ∧ ((∃ a ∈ odd, a.isError) ↔ Oversized cap files) := by
  obtain ⟨a, ha, hempty, herror⟩ := h.exists_assess (hs.canBeAssessed s h.mem)
  refine ⟨a.anomalies, fun found => ?_, hempty, herror⟩
  rw [hr.anomalies]
  refine and_congr_right fun _ => ?_
  constructor
  · rintro ⟨t, ht, a', ha', hsubmitter, rfl⟩
    obtain rfl : t = s := List.inj_on_of_nodup_map (nodup_crawl d o.root o.extensions) ht h.mem hsubmitter
    rw [Except.ok.inj (ha.symm.trans ha')]
  · rintro rfl
    exact ⟨s, h.mem, a, ha, rfl, rfl⟩

theorem ne_of_oversized (hr : IsOutcome d o cap n p r) (hs : IsScannable d o cap)
    (h : IsBlankSubmission d o cap s files) (hsize : Oversized cap files) {pair : ComparedPair RawText} (hpair : pair ∈ r.pairs) :
    pair.submitter1 ≠ s.submitter ∧ pair.submitter2 ≠ s.submitter := by
  have hnone (text : String) : ¬ Compares d o cap s.submitter text := fun hc => ((h.compares_iff hs).1 hc).1 hsize
  obtain ⟨s₁, s₂, c₁, c₂, h₁, h₂, -, -, rfl⟩ := (hr.pairs pair).1 hpair
  refine ⟨?_, ?_⟩
  · rintro rfl
    exact hnone c₁ h₁
  · rintro rfl
    exact hnone c₂ h₂

variable (hr : IsOutcome d o cap n p r) (hs : IsScannable d o cap) (h : IsBlankSubmission d o cap s files)
  (h' : IsBlankSubmission d o cap s' files')

include hr hs h h'

/-- Two blank submissions with one sequence of headers are listed as plagiarized. -/
theorem exists_plagiarized (hlt : s.submitter < s'.submitter) (hsize : ¬ Oversized cap files)
    (hsize' : ¬ Oversized cap files') (heq : normal (headers files) = normal (headers files')) (hn : n ≤ 100) :
    ∃ pair ∈ r.pairs, pair.submitter1 = s.submitter ∧ pair.submitter2 = s'.submitter ∧ pair.report.overall = 100 ∧
      pair.report.verdict = .plagiarized := by
  obtain ⟨hoverall, hverdict⟩ := compareTexts_of_headers_eq p h.ne_nil h.blank h'.blank heq
  have hc := (h.compares_iff hs).2 ⟨hsize, rfl⟩
  have hc' := (h'.compares_iff hs).2 ⟨hsize', rfl⟩
  have hle : n ≤ (compareTexts p (contentOf files) (contentOf files')).overall := hn.trans_eq hoverall.symm
  exact ⟨_, (hr.pairs _).2 ⟨_, _, _, _, hc, hc', hlt, hle, rfl⟩, rfl, rfl, hoverall, hverdict⟩

/-- Two blank submissions with other headers are listed as original or not at all, if no name has a line feed. -/
theorem original_of_headers_ne (hne : normal (headers files) ≠ normal (headers files'))
    (hplain : ∀ f ∈ files, HasPlainName f.1) {pair : ComparedPair RawText} (hpair : pair ∈ r.pairs)
    (he : pair.submitter1 = s.submitter) (he' : pair.submitter2 = s'.submitter) :
    pair.report.overall = 0 ∧ pair.report.verdict = .original := by
  obtain ⟨t, t', c, c', hc, hc', -, -, rfl⟩ := (hr.pairs pair).1 hpair
  obtain rfl : t = s.submitter := he
  obtain rfl : t' = s'.submitter := he'
  obtain ⟨-, rfl⟩ := (h.compares_iff hs).1 hc
  obtain ⟨-, rfl⟩ := (h'.compares_iff hs).1 hc'
  obtain ⟨hoverall, hverdict⟩ := compareTexts_of_headers_ne p h.blank h'.blank hplain hne
  exact ⟨hoverall, hverdict⟩

end IsOutcome

/-- No scan reports a submission of blank files as empty.  It is kept out of the comparison only if its files are too
large, by themselves or with their headers, and else it is compared: two such submissions with one sequence of
headers are listed as plagiarized with the score `100` whenever the threshold allows, and if no name has a line feed,
other headers make them original. -/
theorem evaluate_blank_submissions {d : Disk} {o : ScanOptions} {n : Int} {p : Policy} {cap : Number}
    (hd : d.tree.IsSound) (hr : Path.hasNull o.root = false) (ht : o.threshold = .ofInt n) (hp : o.policy = .ok p)
    (hl : o.limit = .ok cap) :
    ((∃ r, evaluate d o = .ok r) ↔ IsScannable d o cap) ∧ ∀ r, evaluate d o = .ok r →
      (∀ r', (scan d o).1 = .ok r' → r'.pairs = r.pairs ∧ r'.anomalies = r.anomalies) ∧
      (∀ s files, IsBlankSubmission d o cap s files →
        (∀ found, (s.submitter, found) ∈ r.anomalies → .emptyFile ∉ found) ∧
        ((∃ found, (s.submitter, found) ∈ r.anomalies ∧ ∃ a ∈ found, a.isError) ↔ Oversized cap files) ∧
        (Oversized cap files → ∀ pair ∈ r.pairs, pair.submitter1 ≠ s.submitter ∧ pair.submitter2 ≠ s.submitter)) ∧
      ∀ s s' files files', IsBlankSubmission d o cap s files → IsBlankSubmission d o cap s' files' →
        s.submitter < s'.submitter → ¬ Oversized cap files → ¬ Oversized cap files' →
        (normal (headers files) = normal (headers files') → n ≤ 100 → ∃ pair ∈ r.pairs,
          pair.submitter1 = s.submitter ∧ pair.submitter2 = s'.submitter ∧ pair.report.overall = 100 ∧
            pair.report.verdict = .plagiarized) ∧
        (normal (headers files) ≠ normal (headers files') → (∀ f ∈ files, HasPlainName f.1) → ∀ pair ∈ r.pairs,
          pair.submitter1 = s.submitter → pair.submitter2 = s'.submitter →
            pair.report.overall = 0 ∧ pair.report.verdict = .original) := by
  have hgets := exists_evaluate_iff hd hr (ht ▸ rfl : o.threshold.number? .lowerBound = .ok (.whole n)) hp hl
  refine ⟨hgets, fun r he => ⟨(scan_of_evaluate he).2, ?_, ?_⟩⟩
  · intro s files h
    have hscan := hgets.1 ⟨r, he⟩
    have hout := isOutcome_of_evaluate hr ht hp hl he
    obtain ⟨odd, hentry, hempty, herror⟩ := hout.exists_blank_entry hscan h
    refine ⟨?_, ?_, fun hsize pair => hout.ne_of_oversized hscan h hsize⟩
    · intro found hfound
      rwa [((hentry found).1 hfound).2]
    · rw [← herror]
      constructor
      · rintro ⟨found, hfound, hany⟩
        rwa [← ((hentry found).1 hfound).2]
      · rintro ⟨a, ha, hae⟩
        exact ⟨odd, (hentry odd).2 ⟨List.ne_nil_of_mem ha, rfl⟩, a, ha, hae⟩
  · intro s s' files files' h h' hlt hsize hsize'
    have hscan := hgets.1 ⟨r, he⟩
    have hout := isOutcome_of_evaluate hr ht hp hl he
    exact ⟨hout.exists_plagiarized hscan h h' hlt hsize hsize',
      fun hne hplain pair => hout.original_of_headers_ne hscan h h' hne hplain⟩

/-! ### Two blank submissions -/

/-- A folder with one file that is a space and a line feed. -/
def blankFolder : FileTree :=
  .folder [("1.js", .file (Text.encode " \n"))]

/-- A disk with two submissions of a blank file. -/
def blankDisk : Disk where
  tree := .folder [("s", .folder [("a", blankFolder), ("b", blankFolder)])]

/-- The submissions on that disk: the submitters with the paths of their files. -/
def blankPaths : List (RawText × RawText) :=
  [("a", "s/a/1.js"), ("b", "s/b/1.js")]

theorem isSound_blankDisk : blankDisk.tree.IsSound := by
  have hfolder : blankFolder.IsSound := .folder (by simp) (by decide +kernel) (by simpa using .file _)
  have hs : FileTree.IsSound (.folder [("a", blankFolder), ("b", blankFolder)]) :=
    .folder (by simp) (by decide +kernel) (by simpa using hfolder)
  exact .folder (by simp) (by decide +kernel) (by simpa using hs)

theorem crawl_blankDisk : crawl blankDisk "s" [] = blankPaths.map fun e => ⟨e.1, [e.2], [e.2]⟩ := by
  have hfind : blankDisk.find "s" = .ok (.folder [("a", blankFolder), ("b", blankFolder)]) := by rfl
  have hvisits : (FileTree.folder [("a", blankFolder), ("b", blankFolder)]).visits "s" =
      [⟨"s", []⟩, ⟨"s/a", ["1.js"]⟩, ⟨"s/b", ["1.js"]⟩] := by
    simp (disch := decide +kernel) only [FileTree.visits_folder_of_nodup, FileTree.subvisits, blankFolder]
    decide +kernel
  rw [crawl_of_find hfind, hvisits]
  decide +kernel

theorem isBlankSubmission_blankDisk {name path : RawText} (h : (name, path) ∈ blankPaths) :
    IsBlankSubmission blankDisk { root := "s" } defaultLimit ⟨name, [path], [path]⟩ [(path, " \n")] := by
  have hblank : isBlankText " \n" := by decide +kernel
  refine ⟨?_, rfl, by simp, ?_, by simpa [AllBlank] using hblank⟩
  · rw [crawl_blankDisk]
    exact List.mem_map.2 ⟨_, h, rfl⟩
  · have hread : ∀ e ∈ blankPaths, readSource blankDisk e.2 (.ok defaultLimit) = .ok (.ok " \n") := by
      simp only [blankPaths, List.forall_mem_cons]
      exact ⟨by rfl, by rfl, by simp⟩
    simpa using hread _ h

theorem not_oversized_blankDisk {name path : RawText} (h : (name, path) ∈ blankPaths) :
    ¬ Oversized defaultLimit [(path, " \n")] := by
  have hsize : ∀ e ∈ blankPaths, defaultLimit.isBelow (totalSize [(e.2, " \n")]) = false ∧
      defaultLimit.isBelow (contentOf [(e.2, " \n")]).utf8ByteSize = false := by decide +kernel
  rw [Oversized, (hsize _ h).1, (hsize _ h).2]
  simp

theorem isScannable_blankDisk : IsScannable blankDisk { root := "s" } defaultLimit := by
  have hnames : ∀ e ∈ blankPaths, (Path.baseName e.2).IsText := by decide +kernel
  refine ⟨rfl, ?_⟩
  change ∀ s ∈ crawl blankDisk "s" [], _
  rw [crawl_blankDisk, List.forall_mem_map]
  intro e he
  exact canBeAssessed_of_isText (fun _ => rfl) (by simpa using hnames e he)

theorem evaluate_blank_submissions_pair :
    ∃ r, evaluate blankDisk { root := "s" } = .ok r ∧ (∀ found, (↑"a", found) ∈ r.anomalies → .emptyFile ∉ found) ∧
      ∃ pair ∈ r.pairs, pair.submitter1 = "a" ∧ pair.submitter2 = "b" ∧ pair.report.overall = 100 ∧
        pair.report.verdict = .plagiarized := by
  have ha := isBlankSubmission_blankDisk (.head _)
  have hb := isBlankSubmission_blankDisk (.tail _ (.head _))
  have hheaders : normal (headers [("s/a/1.js", " \n")]) = normal (headers [("s/b/1.js", " \n")]) := by decide +kernel
  obtain ⟨hgets, hall⟩ :=
    evaluate_blank_submissions (o := { root := "s" }) isSound_blankDisk (by decide +kernel) rfl rfl rfl
  obtain ⟨r, he⟩ := hgets.2 isScannable_blankDisk
  obtain ⟨-, hblank, hpairs⟩ := hall r he
  obtain ⟨hlisted, -⟩ := hpairs _ _ _ _ ha hb (by decide +kernel) (not_oversized_blankDisk (.head _))
    (not_oversized_blankDisk (.tail _ (.head _)))
  exact ⟨r, he, (hblank _ _ ha).1, hlisted hheaders (by decide)⟩

/-- The scan of that disk lists the two submissions as plagiarized. -/
theorem exists_outcome_blankDisk : ∃ r, evaluate blankDisk { root := "s" } = .ok r ∧
    IsOutcome blankDisk { root := "s" } defaultLimit 0 .adaptive r ∧ ∃ pair ∈ r.pairs, pair.submitter1 = "a" ∧
      pair.submitter2 = "b" ∧ pair.report.overall = 100 ∧ pair.report.verdict = .plagiarized := by
  have hheaders : normal (headers [("s/a/1.js", " \n")]) = normal (headers [("s/b/1.js", " \n")]) := by decide +kernel
  obtain ⟨r, he⟩ := (exists_evaluate_iff (o := { root := "s" }) isSound_blankDisk (by decide +kernel) rfl rfl rfl).2
    isScannable_blankDisk
  have hout := isOutcome_of_evaluate (o := { root := "s" }) (n := 0) (by decide +kernel) rfl rfl rfl he
  exact ⟨r, he, hout, hout.exists_plagiarized isScannable_blankDisk (isBlankSubmission_blankDisk (.head _))
    (isBlankSubmission_blankDisk (.tail _ (.head _))) (by decide +kernel) (not_oversized_blankDisk (.head _))
    (not_oversized_blankDisk (.tail _ (.head _))) hheaders (by decide)⟩

/-- Two submissions of a blank file: the scan finds no error in either and lists them as plagiarized. -/
theorem evaluate_lists_blank_pair :
    ∃ r, evaluate blankDisk { root := "s" } = .ok r ∧
      (∀ submitter path, (submitter, path) ∈ blankPaths →
        IsBlankSubmission blankDisk { root := "s" } defaultLimit ⟨submitter, [path], [path]⟩ [(path, " \n")] ∧
        ¬ ∃ found, (submitter, found) ∈ r.anomalies ∧ ∃ a ∈ found, a.isError) ∧
      ∃ pair ∈ r.pairs, pair.submitter1 = "a" ∧ pair.submitter2 = "b" ∧ pair.report.verdict = .plagiarized := by
  obtain ⟨r, he, hout, pair, hpair, h₁, h₂, -, hverdict⟩ := exists_outcome_blankDisk
  refine ⟨r, he, fun submitter path hmem => ?_, pair, hpair, h₁, h₂, hverdict⟩
  have hblank := isBlankSubmission_blankDisk hmem
  refine ⟨hblank, ?_⟩
  obtain ⟨odd, hentry, -, herror⟩ := hout.exists_blank_entry isScannable_blankDisk hblank
  rintro ⟨found, hfound, hany⟩
  obtain ⟨-, rfl⟩ := (hentry found).1 hfound
  exact not_oversized_blankDisk hmem (herror.1 hany)

end Semblance
