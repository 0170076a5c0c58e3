import Semblance.Proofs.Scan.Outcome

/-!
# Every submitter is accounted for

A scan takes each submission into the comparison or says in an error why not, and never both (`evaluate_accounts`):
an assessment has no content exactly if one of its anomalies is an error, and the contents and the entries of the
anomalies are read off the same assessments.
-/

namespace Semblance

/-- A scan reports an error about a submitter. -/
def ScanResult.HasError (r : ScanResult) (submitter : RawText) : Prop :=
  ∃ found, (submitter, found) ∈ r.anomalies ∧ ∃ a ∈ found, a.isError

/-- How a scan accounts for the submissions below its root, when it compares `contents` and finds `r`. -/
structure Accounts (d : Disk) (o : ScanOptions) (cap : Number) (p : Policy) (contents : List (RawText × String))
    (r : ScanResult) : Prop where
  /-- What is compared are the contents with which submissions are accepted. -/
  compared : ∀ submitter content, (submitter, content) ∈ contents ↔ Compares d o cap submitter content
  /-- A submitter without errors is compared, exactly once with every other one that is compared; all others have an
  error, and are not compared and in no comparison. -/
  classes : ∀ s ∈ crawl d o.root o.extensions,
    Xor (s.submitter ∈ contents.map Prod.fst ∧
        (∀ other ∈ contents.map Prod.fst, other ≠ s.submitter →
          ∃! pair, pair ∈ (allPairs contents).map (comparePair p) ∧ pair.Involves s.submitter ∧ pair.Involves other) ∧
        ¬ r.HasError s.submitter)
      (r.HasError s.submitter ∧ s.submitter ∉ contents.map Prod.fst ∧
        ∀ pair ∈ (allPairs contents).map (comparePair p), ¬ pair.Involves s.submitter)
  /-- The anomalies are in the order of the submissions. -/
  sublist : (r.anomalies.map Prod.fst).Sublist ((crawl d o.root o.extensions).map Submission.submitter)
  nodup : (r.anomalies.map Prod.fst).Nodup
  ne_nil : ∀ entry ∈ r.anomalies, entry.2 ≠ []
  /-- What is compared is not blank and within the limit. -/
  content : ∀ entry ∈ contents, isBlankText entry.2 = false ∧ cap.isBelow entry.2.utf8ByteSize = false
  no_source : ∀ s ∈ crawl d o.root o.extensions, s.sources = [] → s.submitter ∉ contents.map Prod.fst
  unreadable : ∀ s ∈ crawl d o.root o.extensions,
    (∀ path ∈ s.sources, ∃ e, readSource d path (.ok cap) = .ok (.error e)) → s.submitter ∉ contents.map Prod.fst

/-! ### The comparisons of two submitters -/

section Comparisons

variable {contents : List (RawText × String)} (h : contents.Pairwise fun a b => a.1 < b.1) (p : Policy)

include h

theorem nodup_submitters_of_pairwise : (contents.map Prod.fst).Nodup :=
  List.pairwise_map.2 (h.imp fun hlt => hlt.ne)

theorem mem_of_involves {pair : ComparedPair RawText} (hpair : pair ∈ (allPairs contents).map (comparePair p))
    {submitter : RawText} (hs : pair.Involves submitter) : submitter ∈ contents.map Prod.fst := by
  obtain ⟨s₁, s₂, c₁, c₂, h₁, h₂, -, rfl⟩ := (mem_comparePair h p).1 hpair
  rcases hs with rfl | rfl
  · exact List.mem_map.2 ⟨_, h₁, rfl⟩
  · exact List.mem_map.2 ⟨_, h₂, rfl⟩

private theorem existsUnique_comparison_of_lt {x y : RawText} (hx : x ∈ contents.map Prod.fst)
    (hy : y ∈ contents.map Prod.fst) (hlt : x < y) :
    ∃! pair, pair ∈ (allPairs contents).map (comparePair p) ∧ pair.Involves x ∧ pair.Involves y := by
  obtain ⟨⟨x, c⟩, hxc, rfl⟩ := List.mem_map.1 hx
  obtain ⟨⟨y, e⟩, hye, rfl⟩ := List.mem_map.1 hy
  refine ⟨⟨x, y, compareTexts p c e, c, e⟩, ⟨?_, .inl rfl, .inr rfl⟩, ?_⟩
  · exact (mem_comparePair h p).2 ⟨x, y, c, e, hxc, hye, hlt, rfl⟩
  rintro pair ⟨hpair, hpx, hpy⟩
  obtain ⟨s₁, s₂, c₁, c₂, h₁, h₂, hlt', rfl⟩ := (mem_comparePair h p).1 hpair
  -- the names of a comparison are in order, so the first is the smaller of the two
  have hnames : s₁ = x ∧ s₂ = y := by
    rcases hpx with rfl | rfl <;> rcases hpy with rfl | rfl
    · exact absurd hlt (lt_irrefl _)
    · exact ⟨rfl, rfl⟩
    · exact absurd hlt (lt_asymm hlt')
    · exact absurd hlt (lt_irrefl _)
  obtain ⟨rfl, rfl⟩ := hnames
  have hinj := List.inj_on_of_nodup_map (nodup_submitters_of_pairwise h)
  obtain ⟨-, rfl⟩ := Prod.mk.inj (hinj h₁ hxc rfl)
  obtain ⟨-, rfl⟩ := Prod.mk.inj (hinj h₂ hye rfl)
  rfl

/-- Two submitters have one comparison. -/
theorem existsUnique_comparison {x y : RawText} (hx : x ∈ contents.map Prod.fst) (hy : y ∈ contents.map Prod.fst)
    (hne : y ≠ x) :
    ∃! pair, pair ∈ (allPairs contents).map (comparePair p) ∧ pair.Involves x ∧ pair.Involves y := by
  rcases lt_or_gt_of_ne hne with hlt | hlt
  · have hswap := existsUnique_comparison_of_lt h p hy hx hlt
    simp only [and_comm (a := ComparedPair.Involves _ y)] at hswap
    exact hswap
  · exact existsUnique_comparison_of_lt h p hx hy hlt

end Comparisons

/-! ### Submissions that are not compared -/

section Accepts

variable {d : Disk} {cap : Number} {s : Submission} {content : String}

theorem Accepts.not_blank (h : Accepts d cap s content) :
    isBlankText content = false ∧ cap.isBelow content.utf8ByteSize = false := by
  obtain ⟨-, -, -, -, hfound⟩ := h
  exact forall_isError_eq_false_iff.1 hfound

/-- Nothing is put together from files that cannot be read. -/
theorem content_ofOutcomes_of_errors (cap : Number) {outcomes : List (RawText × Except RawText String)}
    (h : ∀ o ∈ outcomes, ∃ e, o.2 = .error e) : (Loaded.ofOutcomes cap outcomes).content = [] := by
  have htexts : readTexts outcomes = [] := by
    rw [readTexts, List.filterMap_eq_nil_iff]
    intro o ho
    obtain ⟨e, he⟩ := h o ho
    rw [he]
    rfl
  rw [content_ofOutcomes, htexts]
  split <;> rfl

theorem not_accepts_of_unreadable (h : ∀ path ∈ s.sources, ∃ e, readSource d path (.ok cap) = .ok (.error e)) :
    ¬ Accepts d cap s content := by
  intro ha
  have hblank := ha.not_blank.1
  obtain ⟨-, loaded, hload, hcontent, -⟩ := ha
  obtain ⟨outcomes, hpaths, hreads, rfl⟩ := exists_outcomes_of_loadSubmission hload
  have herrors : ∀ o ∈ outcomes, ∃ e, o.2 = .error e := by
    intro o ho
    obtain ⟨e, he⟩ := h o.1 (hpaths ▸ List.mem_map.2 ⟨o, ho, rfl⟩)
    exact ⟨e, Except.ok.inj ((hreads o ho).symm.trans he)⟩
  rw [content_ofOutcomes_of_errors cap herrors] at hcontent
  obtain rfl : "" = content := RawText.ofString_injective hcontent
  cases hblank

end Accepts

/-! ### The two classes -/

section Classes

variable {d : Disk} {o : ScanOptions} {cap : Number} {submissions : List Submission} {assessments : List Assessment}
  {s : Submission} (h : List.Forall₂ (fun s a => assess d (.ok cap) s = .ok a) submissions assessments)
  (hnodup : (submissions.map Submission.submitter).Nodup) (hs : s ∈ submissions)

include h

theorem accepts_of_mem_acceptedContents {submitter : RawText} {content : String}
    (hmem : (submitter, content) ∈ acceptedContents assessments) :
    ∃ s ∈ submissions, s.submitter = submitter ∧ Accepts d cap s content :=
  (exists_content_iff h).1 (mem_acceptedContents.1 hmem)

include hnodup hs

theorem mem_acceptedContents_iff_of_mem :
    s.submitter ∈ (acceptedContents assessments).map Prod.fst ↔ ∃ content, Accepts d cap s content := by
  constructor
  · intro hmem
    obtain ⟨⟨submitter, content⟩, hmem, hsubmitter⟩ := List.mem_map.1 hmem
    obtain ⟨s', hs', hsubmitter', ha⟩ := accepts_of_mem_acceptedContents h hmem
    obtain rfl : s' = s := List.inj_on_of_nodup_map hnodup hs' hs (hsubmitter'.trans hsubmitter)
    exact ⟨content, ha⟩
  · rintro ⟨content, ha⟩
    exact List.mem_map.2 ⟨_, mem_acceptedContents.2 ((exists_content_iff h).2 ⟨s, hs, rfl, ha⟩), rfl⟩

/-- A submission has an error among the anomalies exactly if it is not compared. -/
theorem exists_error_iff :
    (∃ found, (s.submitter, found) ∈ anomalyEntries assessments ∧ ∃ a ∈ found, a.isError) ↔
      s.submitter ∉ (acceptedContents assessments).map Prod.fst := by
  obtain ⟨a, ha⟩ : ∃ a, assess d (.ok cap) s = .ok a := by
    obtain ⟨i, hi, rfl⟩ := List.getElem_of_mem hs
    exact ⟨_, h.get hi (h.length_eq ▸ hi)⟩
  have hcontent : (∃ content, Accepts d cap s content) ↔ a.content ≠ none := by
    simp only [← content_of_assess ha, Option.ne_none_iff_exists']
  rw [mem_acceptedContents_iff_of_mem h hnodup hs, hcontent, not_ne_iff, content_eq_none_iff ha]
  constructor
  · rintro ⟨found, hfound, herror⟩
    obtain ⟨-, s', hs', a', ha', hsubmitter, rfl⟩ := (mem_anomalyEntries h).1 hfound
    obtain rfl : s' = s := List.inj_on_of_nodup_map hnodup hs' hs hsubmitter
    rwa [Except.ok.inj (ha.symm.trans ha')]
  · rintro ⟨x, hx, herror⟩
    exact ⟨a.anomalies, (mem_anomalyEntries h).2 ⟨List.ne_nil_of_mem hx, s, hs, a, ha, rfl, rfl⟩, x, hx, herror⟩

end Classes

/-- A scan of a sound disk that gets through accounts for every submitter: it lists those of all comparisons that reach
the threshold, and each submitter is compared and has no error, or has an error and is not compared.  A scan fails, and
accounts for nobody, only if the walk goes too deep, an error in loading cannot be printed or a content cannot be
encoded. -/
theorem evaluate_accounts {d : Disk} {o : ScanOptions} {least cap : Number} {p : Policy} (hd : d.tree.IsSound)
    (hr : Path.hasNull o.root = false) (ht : o.threshold.number? .lowerBound = .ok least) (hp : o.policy = .ok p)
    (hl : o.limit = .ok cap) :
    ((∃ r, evaluate d o = .ok r) ↔ IsScannable d o cap) ∧ ∀ r, evaluate d o = .ok r →
      ∃ assessments, survey d o = .ok assessments ∧
        (∀ r', (scan d o).1 = .ok r' → r'.pairs = r.pairs ∧ r'.anomalies = r.anomalies) ∧
        r.pairs = rank least ((allPairs (acceptedContents assessments)).map (comparePair p)) ∧
        Accounts d o cap p (acceptedContents assessments) r := by
  refine ⟨exists_evaluate_iff hd hr ht hp hl, fun r he => ?_⟩
  obtain ⟨assessments, hs, hassess, hpairs, hanomalies⟩ := exists_survey_of_evaluate hr ht hp hl he
  have hnodup := nodup_crawl d o.root o.extensions
  have hsorted : (acceptedContents assessments).Pairwise fun a b => a.1 < b.1 :=
    pairwise_acceptedContents (map_submitter_of_assess hassess ▸ hnodup)
  have hsublist : (r.anomalies.map Prod.fst).Sublist ((crawl d o.root o.extensions).map Submission.submitter) := by
    rw [hanomalies, ← map_submitter_of_assess hassess, anomalyEntries, List.map_map]
    exact List.filter_sublist.map _
  refine ⟨assessments, hs, (scan_of_evaluate he).2, hpairs, ?_⟩
  have hcompared {s : Submission} (hmem : s ∈ crawl d o.root o.extensions) :=
    mem_acceptedContents_iff_of_mem hassess hnodup hmem
  constructor
  case compared => exact fun submitter content => mem_acceptedContents.trans (exists_content_iff hassess)
  case classes =>
    intro s hmem
    have herror : r.HasError s.submitter ↔ s.submitter ∉ (acceptedContents assessments).map Prod.fst := by
      rw [ScanResult.HasError, hanomalies]
      exact exists_error_iff hassess hnodup hmem
    by_cases hin : s.submitter ∈ (acceptedContents assessments).map Prod.fst
    · have hnone : ¬ r.HasError s.submitter := fun hany => herror.1 hany hin
      refine .inl ⟨⟨hin, fun other hother hne => ?_, hnone⟩, fun hany => hnone hany.1⟩
      exact existsUnique_comparison hsorted p hin hother hne
    · refine .inr ⟨⟨herror.2 hin, hin, fun pair hpair hinvolves => ?_⟩, fun hany => hin hany.1⟩
      exact hin (mem_of_involves hsorted p hpair hinvolves)
  case sublist => exact hsublist
  case nodup => exact hnodup.sublist hsublist
  case ne_nil =>
    rintro ⟨submitter, found⟩ hentry
    rw [hanomalies] at hentry
    exact (mem_anomalyEntries_iff.1 hentry).1
  case content =>
    rintro ⟨submitter, content⟩ hentry
    obtain ⟨s, -, -, ha⟩ := accepts_of_mem_acceptedContents hassess hentry
    exact ha.not_blank
  case no_source =>
    intro s hmem hnil
    rw [hcompared hmem]
    rintro ⟨content, hne, -⟩
    exact hne hnil
  case unreadable =>
    intro s hmem hunreadable
    rw [hcompared hmem]
    rintro ⟨content, ha⟩
    exact not_accepts_of_unreadable hunreadable ha

/-- A submission with a source file is compared, and one without is reported. -/
theorem evaluate_accounts_both :
    let source : FileTree := .folder [("a.js", .file (Text.encode "y = 2"))]
    let notes : FileTree := .folder [("a.txt", .file [])]
    let d : Disk := { tree := .folder [("s", .folder [("x", source), ("y", notes)])] }
    ∃ assessments r, survey d { root := "s" } = .ok assessments ∧ evaluate d { root := "s" } = .ok r ∧
      ↑"x" ∈ (acceptedContents assessments).map Prod.fst ∧ ¬ r.HasError "x" ∧ r.HasError "y" ∧
      ∀ pair ∈ r.pairs, ¬ pair.Involves "y" := by
  intro source notes d
  have hsource : source.IsSound := .folder (by simp) (by decide +kernel) (by simpa using .file _)
  have hnotes : notes.IsSound := .folder (by simp) (by decide +kernel) (by simpa using .file _)
  have hs : FileTree.IsSound (.folder [("x", source), ("y", notes)]) :=
    .folder (by simp) (by decide +kernel) (by simpa using ⟨hsource, hnotes⟩)
  have hd : d.tree.IsSound := .folder (by simp) (by decide +kernel) (by simpa using hs)
  have hfind : d.find "s" = .ok (.folder [("x", source), ("y", notes)]) := by rfl
  have hvisits : (FileTree.folder [("x", source), ("y", notes)]).visits "s" =
      [⟨"s", []⟩, ⟨"s/x", ["a.js"]⟩, ⟨"s/y", ["a.txt"]⟩] := by
    simp (disch := decide +kernel) only [FileTree.visits_folder_of_nodup, FileTree.subvisits, source, notes]
    decide +kernel
  have hcrawl : crawl d "s" [] = [⟨"x", ["s/x/a.js"], ["s/x/a.js"]⟩, ⟨"y", [], ["s/y/a.txt"]⟩] := by
    rw [crawl_of_find hfind, hvisits]
    decide +kernel
  have hx : ⟨"x", ["s/x/a.js"], ["s/x/a.js"]⟩ ∈ crawl d "s" [] := by
    rw [hcrawl]
    exact .head _
  have hy : ⟨"y", [], ["s/y/a.txt"]⟩ ∈ crawl d "s" [] := by
    rw [hcrawl]
    exact .tail _ (.head _)
  have hscan : IsScannable d { root := "s" } defaultLimit := by
    have hnames : ∀ s ∈ crawl d "s" [], ∀ path ∈ s.sources, (Path.baseName path).IsText := by
      rw [hcrawl]
      decide +kernel
    exact ⟨rfl, fun s hmem => canBeAssessed_of_isText (fun _ => rfl) (hnames s hmem)⟩
  obtain ⟨hgets, hall⟩ := evaluate_accounts (o := { root := "s" }) hd (by decide +kernel) rfl rfl rfl
  obtain ⟨r, he⟩ := hgets.2 hscan
  obtain ⟨assessments, hsurvey, -, hpairs, hall⟩ := hall r he
  have haccepts : Accepts d defaultLimit ⟨"x", ["s/x/a.js"], ["s/x/a.js"]⟩ "// --- a.js ---\ny = 2" := by
    have hread : readSource d "s/x/a.js" (.ok defaultLimit) = .ok (.ok "y = 2") := by rfl
    exact ⟨by simp, _, loadSubmission_of_read_one hread (by decide +kernel), by decide +kernel, by decide +kernel⟩
  have hin : ↑"x" ∈ (acceptedContents assessments).map Prod.fst :=
    List.mem_map.2 ⟨_, (hall.compared _ _).2 ⟨_, hx, rfl, haccepts⟩, rfl⟩
  have hnone : ¬ r.HasError "x" := by
    rcases hall.classes _ hx with ⟨⟨-, -, hnone⟩, -⟩ | ⟨⟨-, hnot, -⟩, -⟩
    · exact hnone
    · exact absurd hin hnot
  have herror : r.HasError "y" ∧ ∀ pair ∈ (allPairs (acceptedContents assessments)).map (comparePair .adaptive),
      ¬ pair.Involves "y" := by
    rcases hall.classes _ hy with ⟨⟨hin', -⟩, -⟩ | ⟨herror, -⟩
    · exact absurd hin' (hall.no_source _ hy rfl)
    · exact ⟨herror.1, herror.2.2⟩
  refine ⟨assessments, r, hsurvey, he, hin, hnone, herror.1, fun pair hpair => ?_⟩
  rw [hpairs] at hpair
  exact herror.2 pair (mem_rank.1 hpair).1

/-- The name of a source file that starts with a stray byte. -/
def strayName : RawText :=
  .stray ⟨127, by decide⟩ :: ↑".js"

/-- A folder with a source file of that name. -/
def strayFolder : FileTree :=
  .folder [(strayName, .file (Text.encode "y = 2"))]

theorem assess_strayName {d : Disk} {submitter path : RawText}
    (hread : readSource d path (.ok defaultLimit) = .ok (.ok "y = 2")) (hname : Path.baseName path = strayName) :
    assess d (.ok defaultLimit) ⟨submitter, [path], [path]⟩ = .error (.encoding ⟨7, 127, 1⟩) := by
  have hcontent : rawContent [(path, "y = 2")] = rawContent [(strayName, "y = 2")] := by
    have hself : Path.baseName strayName = strayName := by decide +kernel
    simp only [rawContent, List.map_cons, List.map_nil, withHeader, hname, hself]
  have hload := loadSubmission_of_read_one hread (by decide +kernel)
  rw [hcontent] at hload
  exact assess_of_decoded_eq_error (by simp) hload rfl (by decide +kernel) (by decide +kernel)

/-- A submitter whose only file has a stray byte in its name is neither compared nor reported: the scan fails. -/
theorem evaluate_fails_on_stray_name :
    let d : Disk := { tree := .folder [("s", .folder [("x", strayFolder)])] }
    d.tree.IsSound ∧ crawl d "s" [] = [⟨"x", ["s/x/" ++ strayName], ["s/x/" ++ strayName]⟩] ∧
      evaluate d { root := "s" } = .error (.encoding ⟨7, 127, 1⟩) := by
  intro d
  have hstray : strayFolder.IsSound := .folder (by simp) (by decide +kernel) (by simpa using .file _)
  have hs : FileTree.IsSound (.folder [("x", strayFolder)]) :=
    .folder (by simp) (by decide +kernel) (by simpa using hstray)
  have hfind : d.find "s" = .ok (.folder [("x", strayFolder)]) := by rfl
  have hvisits : (FileTree.folder [("x", strayFolder)]).visits "s" = [⟨"s", []⟩, ⟨"s/x", [strayName]⟩] := by
    simp (disch := decide +kernel) only [FileTree.visits_folder_of_nodup, FileTree.subvisits, strayFolder]
    decide +kernel
  have hcrawl : crawl d "s" [] = [⟨"x", ["s/x/" ++ strayName], ["s/x/" ++ strayName]⟩] := by
    rw [crawl_of_find hfind, hvisits]
    decide +kernel
  have hassess : assess d (.ok defaultLimit) ⟨"x", ["s/x/" ++ strayName], ["s/x/" ++ strayName]⟩ =
      .error (.encoding ⟨7, 127, 1⟩) := assess_strayName (by rfl) (by decide +kernel)
  refine ⟨.folder (by simp) (by decide +kernel) (by simpa using hs), hcrawl, ?_⟩
  have hsurvey : survey d { root := "s" } = .error (.encoding ⟨7, 127, 1⟩) := by
    rw [survey_eq (by decide +kernel), if_neg (by decide +kernel)]
    change (crawl d "s" []).mapM (assess d (.ok defaultLimit)) = _
    rw [hcrawl, List.mapM_cons, hassess]
    rfl
  rw [evaluate, hsurvey]
  rfl

end Semblance
