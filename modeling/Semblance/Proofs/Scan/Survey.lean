import Semblance.Proofs.Submission.Crawl
import Semblance.Proofs.Submission.Headers
import Semblance.Scan

/-!
# The survey of a scan

`Accepts d cap s content` says when a submission takes part in the comparison, and with which content: it has source
files, loading them gives the content, and nothing about the content is an error.  A scan of a sound disk assesses
every submission or none: it fails if the walk goes too deep, an error in loading cannot be printed or a content cannot
be encoded (`exists_survey_iff`), and stray bytes in the name of a file can bring about the last two
(`canBeAssessed_iff`).  An assessment has a content exactly if the submission is accepted with it
(`content_of_assess`).
-/

namespace Semblance

/-- A submission takes part in the comparison with a content. -/
def Accepts (d : Disk) (cap : Number) (s : Submission) (content : String) : Prop :=
  s.sources ≠ [] ∧ ∃ loaded, loadSubmission d s.sources (.ok cap) = .ok loaded ∧ loaded.content = ↑content ∧
    ∀ a ∈ anomalies content cap, a.isError = false

/-- A scan compares a content under the name of a submitter. -/
def Compares (d : Disk) (o : ScanOptions) (cap : Number) (submitter : RawText) (content : String) : Prop :=
  ∃ s ∈ crawl d o.root o.extensions, s.submitter = submitter ∧ Accepts d cap s content

/-- Lines can be printed on a host. -/
def Host.Prints (host : Host) (lines : List RawText) : Prop :=
  ∀ line ∈ lines, host.refusal? line = none

/-- If a submission has source files, the errors in loading them can be printed, and the content can be encoded. -/
def CanBeAssessed (d : Disk) (cap : Number) (s : Submission) : Prop :=
  s.sources ≠ [] → ∀ loaded, loadSubmission d s.sources (.ok cap) = .ok loaded →
    d.host.Prints (loaded.messages s.submitter) ∧ loaded.content.IsText

/-- A scan gets through: the walk does not go too deep, and all submissions can be assessed. -/
structure IsScannable (d : Disk) (o : ScanOptions) (cap : Number) : Prop where
  not_too_deep : isTooDeep d o.root = false
  canBeAssessed : ∀ s ∈ crawl d o.root o.extensions, CanBeAssessed d cap s

theorem Host.print_eq_ok_iff {host : Host} {lines : List RawText} : host.print lines = .ok () ↔ host.Prints lines := by
  rw [Host.Prints, ← List.findSome?_eq_none_iff, Host.print]
  cases lines.findSome? host.refusal? <;> simp

section Assess

variable {d : Disk} {cap : Number} {s : Submission}

/-- The anomalies of loaded files: an error in loading, or what is odd about the content. -/
def Loaded.found (loaded : Loaded) (cap : Number) : List Anomaly :=
  match loaded.errors.getLast? with
  | some reason =>
    if loaded.content.isEmpty then [.loadFailed reason] else Semblance.anomalies loaded.content.text cap
  | none => Semblance.anomalies loaded.content.text cap

theorem anomalies_ofLoaded (submitter : RawText) (loaded : Loaded) (found : List Anomaly) :
    (Assessment.ofLoaded submitter loaded found).anomalies = found := rfl

/-- Loaded files have anomalies, or none, exactly if their content can be encoded. -/
theorem anomalies_eq_ok_iff {loaded : Loaded} {found : List Anomaly} :
    loaded.anomalies (.ok cap) = .ok found ↔ loaded.content.IsText ∧ found = loaded.found cap := by
  unfold Loaded.anomalies Loaded.found
  cases loaded.errors.getLast? with
  | none => exact validate_eq_ok_iff
  | some reason =>
    dsimp only
    split
    · rename_i hempty
      have htext : loaded.content.IsText := by
        rw [List.isEmpty_iff.1 hempty]
        exact RawText.isText_nil
      simp [htext, eq_comm]
    · exact validate_eq_ok_iff

theorem assess_of_sources_eq_nil (h : s.sources = []) : assess d (.ok cap) s = .ok (.ofFiles s) := by
  rw [assess, h]
  rfl

theorem assess_of_loaded {loaded : Loaded} (hne : s.sources ≠ [])
    (h : loadSubmission d s.sources (.ok cap) = .ok loaded) :
    assess d (.ok cap) s = (d.host.print (loaded.messages s.submitter)).bind fun _ =>
      (loaded.anomalies (.ok cap)).map (.ofLoaded s.submitter loaded) := by
  rw [assess, if_neg (by simpa using hne), h]
  cases hprint : d.host.print (loaded.messages s.submitter) <;> cases hfound : loaded.anomalies (.ok cap) <;>
    simp [bind, Except.bind, hprint, hfound, pure, Except.pure, Except.map]

/-- Loaded files are assessed exactly if the errors in loading can be printed and the content can be encoded. -/
theorem assess_eq_ok_iff {loaded : Loaded} {a : Assessment} (hne : s.sources ≠ [])
    (h : loadSubmission d s.sources (.ok cap) = .ok loaded) :
    assess d (.ok cap) s = .ok a ↔ (d.host.Prints (loaded.messages s.submitter) ∧ loaded.content.IsText) ∧
      a = .ofLoaded s.submitter loaded (loaded.found cap) := by
  rw [assess_of_loaded hne h, ← Host.print_eq_ok_iff]
  cases d.host.print (loaded.messages s.submitter) with
  | error e => simp [Except.bind]
  | ok _ =>
    simp only [Except.bind, true_and]
    constructor
    · intro ha
      cases hfound : loaded.anomalies (.ok cap) with
      | error e => simp [hfound, Except.map] at ha
      | ok found =>
        obtain ⟨htext, rfl⟩ := anomalies_eq_ok_iff.1 hfound
        rw [hfound] at ha
        exact ⟨htext, (Except.ok.inj ha).symm⟩
    · rintro ⟨htext, rfl⟩
      rw [anomalies_eq_ok_iff.2 ⟨htext, rfl⟩]
      rfl

/-- An assessment fails with the stray bytes that are in the way of encoding the content. -/
theorem assess_of_decoded_eq_error {loaded : Loaded} {run : StrayRun} (hne : s.sources ≠ [])
    (h : loadSubmission d s.sources (.ok cap) = .ok loaded) (hnone : loaded.errors = [])
    (hblank : loaded.content.isBlank = false) (hstray : loaded.content.decoded = .error run) :
    assess d (.ok cap) s = .error (.encoding run) := by
  have hprint : d.host.print (loaded.messages s.submitter) = .ok () := by
    rw [Host.print_eq_ok_iff, Loaded.messages, hnone]
    exact List.forall_mem_nil _
  rw [assess_of_loaded hne h, hprint, Except.bind, Loaded.anomalies, hnone, List.getLast?_nil, validate, hblank, hstray]
  rfl

/-- A submission is assessed exactly if it can be, as long as the paths of its files have no null character. -/
theorem exists_assess_iff (h : ∀ path ∈ s.sources, Path.hasNull path = false) :
    (∃ a, assess d (.ok cap) s = .ok a) ↔ CanBeAssessed d cap s := by
  by_cases hs : s.sources = []
  · exact ⟨fun _ hne => absurd hs hne, fun _ => ⟨_, assess_of_sources_eq_nil hs⟩⟩
  · obtain ⟨loaded, hl⟩ := exists_loadSubmission d h cap
    simp only [CanBeAssessed, hl, assess_eq_ok_iff hs hl, exists_and_left, exists_eq, and_true, Except.ok.injEq,
      forall_eq', ne_eq, hs, not_false_eq_true, true_imp_iff]

/-- A submission with source files can be assessed exactly if the errors in loading them can be printed, and the content
is dropped for its size or the names of all files in it can be encoded. -/
theorem canBeAssessed_iff {outcomes : List (RawText × Except RawText String)} (hne : s.sources ≠ [])
    (hpaths : s.sources = outcomes.map Prod.fst) (hreads : ∀ o ∈ outcomes, readSource d o.1 (.ok cap) = .ok o.2) :
    CanBeAssessed d cap s ↔ d.host.Prints ((Loaded.ofOutcomes cap outcomes).messages s.submitter) ∧
      (cap.isBelow (totalSize (readTexts outcomes)) ∨ ∀ f ∈ readTexts outcomes, (Path.baseName f.1).IsText) := by
  rw [CanBeAssessed, imp_iff_right hne, hpaths, loadSubmission_eq_ok hreads]
  simp only [Except.ok.injEq, forall_eq', content_ofOutcomes]
  split
  · rename_i h
    simp [h, RawText.isText_nil]
  · rename_i h
    simp [h, isText_rawContent]

/-- Where all lines can be printed, a submission can be assessed if the names of all its source files can be encoded. -/
theorem canBeAssessed_of_isText (hprints : ∀ line, d.host.refusal? line = none)
    (h : ∀ path ∈ s.sources, (Path.baseName path).IsText) : CanBeAssessed d cap s := by
  intro hne loaded hl
  obtain ⟨outcomes, hpaths, hreads, -⟩ := exists_outcomes_of_loadSubmission hl
  refine (canBeAssessed_iff hne hpaths.symm hreads).2 ⟨fun line _ => hprints line, .inr fun f hf => ?_⟩ hne loaded hl
  obtain ⟨o, ho, hof⟩ := List.mem_filterMap.1 hf
  obtain ⟨text, -, rfl⟩ := Option.map_eq_some_iff.1 hof
  exact h o.1 (hpaths ▸ List.mem_map.2 ⟨o, ho, rfl⟩)

/-- An assessment comes from the files of a submission without source files, or from the loaded source files. -/
theorem assess_cases {a : Assessment} (h : assess d (.ok cap) s = .ok a) :
    s.sources = [] ∧ a = .ofFiles s ∨
      s.sources ≠ [] ∧ ∃ loaded, loadSubmission d s.sources (.ok cap) = .ok loaded ∧ loaded.content.IsText ∧
        a = .ofLoaded s.submitter loaded (loaded.found cap) := by
  by_cases hs : s.sources = []
  · rw [assess_of_sources_eq_nil hs] at h
    exact .inl ⟨hs, (Except.ok.inj h).symm⟩
  · cases hl : loadSubmission d s.sources (.ok cap) with
    | error e =>
      rw [assess, if_neg (by simpa using hs), hl] at h
      simp [bind, Except.bind] at h
    | ok loaded =>
      obtain ⟨⟨-, htext⟩, rfl⟩ := (assess_eq_ok_iff hs hl).1 h
      exact .inr ⟨hs, loaded, rfl, htext, rfl⟩

theorem submitter_of_assess {a : Assessment} (h : assess d (.ok cap) s = .ok a) : a.submitter = s.submitter := by
  rcases assess_cases h with ⟨-, rfl⟩ | ⟨-, loaded, -, -, rfl⟩ <;> rfl

/-- An empty content is an error whether or not its files could be loaded. -/
private theorem any_isError_found (loaded : Loaded) :
    (loaded.found cap).any Anomaly.isError = (anomalies loaded.content.text cap).any Anomaly.isError := by
  unfold Loaded.found
  split
  · split
    · -- an empty content is blank, and that is an error too
      rename_i hempty
      have hblank : isBlankText loaded.content.text := by
        rw [List.isEmpty_iff.1 hempty]
        decide
      simp [anomalies, hblank, Anomaly.isError]
    · rfl
  · rfl

/-- An assessment has a content exactly if the submission is accepted with it. -/
theorem content_of_assess {a : Assessment} (h : assess d (.ok cap) s = .ok a) {content : String} :
    a.content = some content ↔ Accepts d cap s content := by
  rcases assess_cases h with ⟨hs, rfl⟩ | ⟨hs, loaded, hl, htext, rfl⟩
  · simp [Accepts, hs, Assessment.ofFiles]
  · rw [Assessment.ofLoaded, any_isError_found, Option.ite_none_left_eq_some]
    constructor
    · rintro ⟨hfound, he⟩
      obtain rfl := Option.some.inj he
      exact ⟨hs, loaded, hl, htext.ofString_text.symm, by simpa using hfound⟩
    · rintro ⟨-, loaded', hl', hcontent, hfound⟩
      obtain rfl : loaded = loaded' := Except.ok.inj (hl.symm.trans hl')
      have htext : loaded.content.text = content := by rw [hcontent, RawText.text_ofString]
      exact ⟨by simpa [htext] using hfound, congrArg some htext⟩

/-- Exactly the assessments with an error have no content. -/
theorem content_eq_none_iff {a : Assessment} (h : assess d (.ok cap) s = .ok a) :
    a.content = none ↔ ∃ x ∈ a.anomalies, x.isError := by
  rcases assess_cases h with ⟨-, rfl⟩ | ⟨-, loaded, -, -, rfl⟩
  · simp [Assessment.ofFiles, Anomaly.isError]
  · simp [Assessment.ofLoaded]

/-- Nothing odd about a content is an error exactly if it is not blank and within the limit. -/
theorem forall_isError_eq_false_iff {content : String} :
    (∀ x ∈ anomalies content cap, x.isError = false) ↔
      isBlankText content = false ∧ cap.isBelow content.utf8ByteSize = false := by
  unfold anomalies
  split
  · rename_i hblank
    simp [hblank, Anomaly.isError]
  split
  · rename_i hsize
    simp [hsize, Anomaly.isError]
  · rename_i hblank hsize
    simp only [hblank, hsize, and_self, iff_true]
    -- what is left are the warnings
    split <;> split <;> simp [Anomaly.isError]

/-- A submission is accepted with no more than one content. -/
theorem Accepts.content_unique {content content' : String} (h : Accepts d cap s content)
    (h' : Accepts d cap s content') : content = content' := by
  obtain ⟨-, loaded, hl, hcontent, -⟩ := h
  obtain ⟨-, loaded', hl', hcontent', -⟩ := h'
  obtain rfl := Except.ok.inj (hl.symm.trans hl')
  exact RawText.ofString_injective (hcontent.symm.trans hcontent')

end Assess

/-! ### All submissions -/

section Survey

variable {d : Disk} {o : ScanOptions} {cap : Number}

/-- A submitter's content in a scan is unique. -/
theorem Compares.content_unique {submitter : RawText} {content content' : String}
    (h : Compares d o cap submitter content) (h' : Compares d o cap submitter content') : content = content' := by
  obtain ⟨s, hs, rfl, ha⟩ := h
  obtain ⟨s', hs', he, ha'⟩ := h'
  obtain rfl : s = s' := List.inj_on_of_nodup_map (nodup_crawl d o.root o.extensions) hs hs' he.symm
  exact ha.content_unique ha'

theorem survey_eq (hr : Path.hasNull o.root = false) :
    survey d o = if isTooDeep d o.root then .error .walkTooDeep
      else (crawl d o.root o.extensions).mapM (assess d o.limit) := by
  rw [survey, crawl?, if_neg (by simp [hr])]
  split <;> rfl

theorem survey_eq_ok_iff (hr : Path.hasNull o.root = false) (hl : o.limit = .ok cap) {assessments : List Assessment} :
    survey d o = .ok assessments ↔ isTooDeep d o.root = false ∧
      List.Forall₂ (fun s a => assess d (.ok cap) s = .ok a) (crawl d o.root o.extensions) assessments := by
  rw [survey_eq hr, hl, ← mapM_eq_ok_iff]
  split
  · rename_i hdeep
    simp [hdeep]
  · rename_i hdeep
    simp [hdeep]

/-- A scan assesses every submission exactly if it gets through, as long as the paths of the files have no null
character. -/
theorem exists_survey_iff_of_hasNull (hr : Path.hasNull o.root = false) (hl : o.limit = .ok cap)
    (h : ∀ s ∈ crawl d o.root o.extensions, ∀ path ∈ s.sources, Path.hasNull path = false) :
    (∃ assessments, survey d o = .ok assessments) ↔ IsScannable d o cap := by
  simp only [survey_eq_ok_iff hr hl, exists_and_left]
  constructor
  · rintro ⟨hdeep, assessments, hassess⟩
    refine ⟨hdeep, fun s hs => (exists_assess_iff (h s hs)).1 ?_⟩
    obtain ⟨i, hi, rfl⟩ := List.getElem_of_mem hs
    exact ⟨_, hassess.get hi (hassess.length_eq ▸ hi)⟩
  · rintro ⟨hdeep, hencoded⟩
    obtain ⟨assessments, ha⟩ := exists_mapM_eq_ok fun s hs => (exists_assess_iff (h s hs)).2 (hencoded s hs)
    exact ⟨hdeep, assessments, mapM_eq_ok_iff.1 ha⟩

/-- A scan of a sound disk assesses every submission exactly if it gets through. -/
theorem exists_survey_iff (hd : d.tree.IsSound) (hr : Path.hasNull o.root = false) (hl : o.limit = .ok cap) :
    (∃ assessments, survey d o = .ok assessments) ↔ IsScannable d o cap :=
  exists_survey_iff_of_hasNull hr hl fun _ hs => hasNull_of_mem_crawl hd hr hs

variable {submissions : List Submission} {assessments : List Assessment}

theorem map_submitter_of_assess
    (h : List.Forall₂ (fun s a => assess d (.ok cap) s = .ok a) submissions assessments) :
    assessments.map Assessment.submitter = submissions.map Submission.submitter := by
  induction h with
  | nil => rfl
  | cons ha _ ih => rw [List.map_cons, List.map_cons, ih, submitter_of_assess ha]

/-- The assessments are those of the submissions. -/
theorem exists_mem_assessments_iff
    (h : List.Forall₂ (fun s a => assess d (.ok cap) s = .ok a) submissions assessments) {P : Assessment → Prop} :
    (∃ a ∈ assessments, P a) ↔ ∃ s ∈ submissions, ∃ a, assess d (.ok cap) s = .ok a ∧ P a := by
  induction h with
  | nil => simp
  | cons ha _ ih => simp only [List.exists_mem_cons_iff, ih, ha, Except.ok.injEq, exists_eq_left']

/-- The contents of the assessments are those with which the submissions are accepted. -/
theorem exists_content_iff
    (h : List.Forall₂ (fun s a => assess d (.ok cap) s = .ok a) submissions assessments)
    {submitter : RawText} {content : String} :
    (∃ a ∈ assessments, a.submitter = submitter ∧ a.content = some content) ↔
      ∃ s ∈ submissions, s.submitter = submitter ∧ Accepts d cap s content := by
  induction h with
  | nil => simp
  | cons ha _ ih => simp only [List.exists_mem_cons_iff, ih, submitter_of_assess ha, content_of_assess ha]

end Survey

end Semblance
