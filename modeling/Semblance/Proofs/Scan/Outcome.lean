import Semblance.Proofs.Scan.Ranking

/-!
# The outcome of a scan

A scan that gets through reports the anomalies of each submission that has any, and lists the pairs of compared contents
that reach the threshold, the highest score first and equal scores in the order of the names (`isOutcome_of_evaluate`).
A page that is written does not change that (`evaluate_ranks`).
-/

namespace Semblance

variable {d : Disk} {o : ScanOptions} {cap : Number} {submissions : List Submission} {assessments : List Assessment}

theorem mem_anomalyEntries_iff {submitter : RawText} {found : List Anomaly} :
    (submitter, found) ∈ anomalyEntries assessments ↔
      found ≠ [] ∧ ∃ a ∈ assessments, a.submitter = submitter ∧ a.anomalies = found := by
  simp only [anomalyEntries, List.mem_map, List.mem_filter, Prod.mk.injEq]
  constructor
  · rintro ⟨a, ⟨ha, hany⟩, rfl, rfl⟩
    exact ⟨by simpa using hany, a, ha, rfl, rfl⟩
  · rintro ⟨hany, a, ha, rfl, rfl⟩
    exact ⟨a, ⟨ha, by simpa using hany⟩, rfl, rfl⟩

/-- The entries of the anomalies come from the submissions that have any. -/
theorem mem_anomalyEntries (h : List.Forall₂ (fun s a => assess d (.ok cap) s = .ok a) submissions assessments)
    {submitter : RawText} {found : List Anomaly} :
    (submitter, found) ∈ anomalyEntries assessments ↔
      found ≠ [] ∧ ∃ s ∈ submissions, ∃ a, assess d (.ok cap) s = .ok a ∧ s.submitter = submitter ∧
        a.anomalies = found := by
  rw [mem_anomalyEntries_iff, exists_mem_assessments_iff h]
  refine and_congr_right fun _ => exists_congr fun s => and_congr_right fun _ => exists_congr fun a => ?_
  exact and_congr_right fun ha => by rw [submitter_of_assess ha]

/-- A pair compares the content of a submitter with another. -/
def ComparedPair.Involves (pair : ComparedPair RawText) (submitter : RawText) : Prop :=
  pair.submitter1 = submitter ∨ pair.submitter2 = submitter

instance (pair : ComparedPair RawText) (submitter : RawText) : Decidable (pair.Involves submitter) :=
  inferInstanceAs (Decidable (_ ∨ _))

/-! ### Scans with a threshold that is a number -/

section Evaluate

variable {least : Number} {p : Policy} {r : ScanResult}

/-- What a scan gives is determined by its assessments. -/
theorem evaluate_of_survey (hs : survey d o = .ok assessments) (ht : o.threshold.number? .lowerBound = .ok least)
    (hp : o.policy = .ok p) :
    ∃ r, evaluate d o = .ok r ∧
      r.pairs = rank least ((allPairs (acceptedContents assessments)).map (comparePair p)) ∧
      r.anomalies = anomalyEntries assessments := by
  obtain ⟨log, hc⟩ := compareAll_eq_ok p ht (acceptedContents assessments)
  rw [evaluate, hs, hp]
  simp only [bind, Except.bind, hc, Except.mapError, pure, Except.pure]
  exact ⟨_, rfl, rfl, rfl⟩

/-- A scan that gets through has assessed every submission. -/
theorem exists_survey_of_evaluate (hr : Path.hasNull o.root = false) (ht : o.threshold.number? .lowerBound = .ok least)
    (hp : o.policy = .ok p) (hl : o.limit = .ok cap) (h : evaluate d o = .ok r) :
    ∃ assessments, survey d o = .ok assessments ∧
      List.Forall₂ (fun s a => assess d (.ok cap) s = .ok a) (crawl d o.root o.extensions) assessments ∧
      r.pairs = rank least ((allPairs (acceptedContents assessments)).map (comparePair p)) ∧
      r.anomalies = anomalyEntries assessments := by
  cases hs : survey d o with
  | error e => simp [evaluate, hs, bind, Except.bind] at h
  | ok assessments =>
    obtain ⟨r', he, hpairs, hanomalies⟩ := evaluate_of_survey hs ht hp
    obtain rfl : r' = r := Except.ok.inj (he.symm.trans h)
    exact ⟨assessments, rfl, ((survey_eq_ok_iff hr hl).1 hs).2, hpairs, hanomalies⟩

theorem exists_evaluate_iff_exists_survey (ht : o.threshold.number? .lowerBound = .ok least) (hp : o.policy = .ok p) :
    (∃ r, evaluate d o = .ok r) ↔ ∃ assessments, survey d o = .ok assessments := by
  constructor
  · rintro ⟨r, h⟩
    cases hs : survey d o with
    | error e => simp [evaluate, hs, bind, Except.bind] at h
    | ok assessments => exact ⟨assessments, rfl⟩
  · rintro ⟨assessments, hs⟩
    obtain ⟨r, he, -⟩ := evaluate_of_survey hs ht hp
    exact ⟨r, he⟩

/-- A scan of a sound disk fails only if the walk goes too deep, an error in loading cannot be printed or a content
cannot be encoded. -/
theorem exists_evaluate_iff (hd : d.tree.IsSound) (hr : Path.hasNull o.root = false)
    (ht : o.threshold.number? .lowerBound = .ok least) (hp : o.policy = .ok p) (hl : o.limit = .ok cap) :
    (∃ r, evaluate d o = .ok r) ↔ IsScannable d o cap := by
  rw [exists_evaluate_iff_exists_survey ht hp, exists_survey_iff hd hr hl]

theorem scan_of_output_eq_empty (ho : o.output = .ok "") : scan d o = (evaluate d o, d) := by
  unfold scan
  rw [ho]
  cases evaluate d o <;> rfl

/-- A page changes neither the pairs nor the anomalies of a scan. -/
theorem scan_of_evaluate (h : evaluate d o = .ok r) :
    (o.output = .ok "" → scan d o = (.ok r, d)) ∧
      ∀ r', (scan d o).1 = .ok r' → r'.pairs = r.pairs ∧ r'.anomalies = r.anomalies := by
  constructor
  · intro ho
    rw [scan_of_output_eq_empty ho, h]
  · intro r' hr'
    unfold scan at hr'
    rw [h] at hr'
    dsimp only at hr'
    split at hr'
    · simp at hr'
    split at hr'
    · simp [← Except.ok.inj hr']
    split at hr'
    · simp at hr'
    split at hr'
    · simp at hr'
    · simp [← Except.ok.inj hr']

end Evaluate

/-! ### What a scan reports and lists -/

/-- What a scan reports and lists: the anomalies of all submissions that have any, and the pairs of compared contents
that reach the threshold, in order. -/
structure IsOutcome (d : Disk) (o : ScanOptions) (cap : Number) (n : Int) (p : Policy) (r : ScanResult) : Prop where
  anomalies : ∀ submitter found, (submitter, found) ∈ r.anomalies ↔
    found ≠ [] ∧ ∃ s ∈ crawl d o.root o.extensions, ∃ a, assess d (.ok cap) s = .ok a ∧ s.submitter = submitter ∧
      a.anomalies = found
  pairs : ∀ pair, pair ∈ r.pairs ↔ ∃ s₁ s₂ c₁ c₂, Compares d o cap s₁ c₁ ∧ Compares d o cap s₂ c₂ ∧ s₁ < s₂ ∧
    n ≤ (compareTexts p c₁ c₂).overall ∧ pair = ⟨s₁, s₂, compareTexts p c₁ c₂, c₁, c₂⟩
  nodup : (r.pairs.map fun pair => (pair.submitter1, pair.submitter2)).Nodup
  sorted : r.pairs.Pairwise ComparedPair.Precedes

theorem isOutcome_of_evaluate {n : Int} {p : Policy} {r : ScanResult} (hr : Path.hasNull o.root = false)
    (ht : o.threshold = .ofInt n) (hp : o.policy = .ok p) (hl : o.limit = .ok cap) (h : evaluate d o = .ok r) :
    IsOutcome d o cap n p r := by
  have hleast : o.threshold.number? .lowerBound = .ok (.whole n) := ht ▸ rfl
  obtain ⟨assessments, -, hassess, hpairs, hanomalies⟩ := exists_survey_of_evaluate hr hleast hp hl h
  have hsorted : (acceptedContents assessments).Pairwise fun a b => a.1 < b.1 :=
    pairwise_acceptedContents (map_submitter_of_assess hassess ▸ nodup_crawl d o.root o.extensions)
  have hmem : ∀ s c, (s, c) ∈ acceptedContents assessments ↔ Compares d o cap s c :=
    fun s c => mem_acceptedContents.trans (exists_content_iff hassess)
  have hbefore := pairwise_comparePair hsorted p
  refine ⟨fun submitter found => hanomalies ▸ mem_anomalyEntries hassess, fun pair => ?_,
    hpairs ▸ nodup_names_rank hbefore _, hpairs ▸ pairwise_rank hbefore _⟩
  rw [hpairs, mem_rank, mem_comparePair hsorted]
  simp only [hmem, Number.isAbove_whole, decide_eq_false_iff_not, not_lt]
  constructor
  · rintro ⟨⟨s₁, s₂, c₁, c₂, h₁, h₂, hlt, rfl⟩, hn⟩
    exact ⟨s₁, s₂, c₁, c₂, h₁, h₂, hlt, hn, rfl⟩
  · rintro ⟨s₁, s₂, c₁, c₂, h₁, h₂, hlt, hn, rfl⟩
    exact ⟨⟨s₁, s₂, c₁, c₂, h₁, h₂, hlt, rfl⟩, hn⟩

/-- A scan of a sound disk gives each pair of compared contents that reaches the threshold, once and with its report,
the highest score first and equal scores in the order of the names.  It fails only if the walk goes too deep, an error
in loading cannot be printed or a content cannot be encoded. -/
theorem evaluate_ranks {n : Int} {p : Policy} (hd : d.tree.IsSound) (hr : Path.hasNull o.root = false)
    (ht : o.threshold = .ofInt n) (hp : o.policy = .ok p) (hl : o.limit = .ok cap) :
    (∀ s c c', Compares d o cap s c → Compares d o cap s c' → c = c') ∧
      ((∃ r, evaluate d o = .ok r) ↔ IsScannable d o cap) ∧ ∀ r, evaluate d o = .ok r →
      (∀ pair, pair ∈ r.pairs ↔ ∃ s₁ s₂ c₁ c₂, Compares d o cap s₁ c₁ ∧ Compares d o cap s₂ c₂ ∧ s₁ < s₂ ∧
        n ≤ (compareTexts p c₁ c₂).overall ∧ pair = ⟨s₁, s₂, compareTexts p c₁ c₂, c₁, c₂⟩) ∧
      (r.pairs.map fun pair => (pair.submitter1, pair.submitter2)).Nodup ∧
      r.pairs.Pairwise ComparedPair.Precedes ∧
      (o.output = .ok "" → scan d o = (.ok r, d)) ∧ ∀ r', (scan d o).1 = .ok r' → r'.pairs = r.pairs := by
  have hleast : o.threshold.number? .lowerBound = .ok (.whole n) := ht ▸ rfl
  refine ⟨fun s c c' => Compares.content_unique, exists_evaluate_iff hd hr hleast hp hl, fun r he => ?_⟩
  have hout := isOutcome_of_evaluate hr ht hp hl he
  obtain ⟨hscan, hsame⟩ := scan_of_evaluate he
  exact ⟨hout.pairs, hout.nodup, hout.sorted, hscan, fun r' hr' => (hsame r' hr').1⟩

/-- Two copies of one file are a pair of the scan. -/
theorem evaluate_ranks_copies :
    let copy : FileTree := .folder [("a.js", .file (Text.encode "y = 2"))]
    let d : Disk := { tree := .folder [("s", .folder [("y", copy), ("x", copy)])] }
    let o : ScanOptions := { root := "s", threshold := .ofInt 100 }
    let c := "// --- a.js ---\ny = 2"
    ∃ r, evaluate d o = .ok r ∧ ⟨"x", "y", compareTexts .adaptive c c, c, c⟩ ∈ r.pairs := by
  intro copy d o c
  have hcopy : copy.IsSound := .folder (by simp) (by decide +kernel) (by simpa using .file _)
  have hs : FileTree.IsSound (.folder [("y", copy), ("x", copy)]) :=
    .folder (by simp) (by decide +kernel) (by simpa using hcopy)
  have hd : d.tree.IsSound := .folder (by simp) (by decide +kernel) (by simpa using hs)
  have hfind : d.find "s" = .ok (.folder [("y", copy), ("x", copy)]) := by rfl
  have hvisits : (FileTree.folder [("y", copy), ("x", copy)]).visits "s" =
      [⟨"s", []⟩, ⟨"s/x", ["a.js"]⟩, ⟨"s/y", ["a.js"]⟩] := by
    simp (disch := decide +kernel) only [FileTree.visits_folder_of_nodup, FileTree.subvisits, copy]
    decide +kernel
  have hcrawl : crawl d "s" [] = [⟨"x", ["s/x/a.js"], ["s/x/a.js"]⟩, ⟨"y", ["s/y/a.js"], ["s/y/a.js"]⟩] := by
    rw [crawl_of_find hfind, hvisits]
    decide +kernel
  have hpath : ∀ path ∈ (["s/x/a.js", "s/y/a.js"] : List RawText),
      loadSubmission d [path] (.ok defaultLimit) = .ok ⟨c, [], none⟩ := by
    have hread : ∀ path ∈ (["s/x/a.js", "s/y/a.js"] : List RawText),
        readSource d path (.ok defaultLimit) = .ok (.ok "y = 2") := by
      simp only [List.forall_mem_cons]
      exact ⟨by rfl, by rfl, by simp⟩
    have hc : ∀ path ∈ (["s/x/a.js", "s/y/a.js"] : List RawText), rawContent [(path, "y = 2")] = c := by decide +kernel
    intro path hmem
    rw [loadSubmission_of_read_one (hread path hmem) (by decide +kernel), hc path hmem]
  have hload : ∀ s ∈ crawl d "s" [], loadSubmission d s.sources (.ok defaultLimit) = .ok ⟨c, [], none⟩ := by
    rw [hcrawl]
    simpa using hpath
  have hcompares {name path : RawText} (hmem : ⟨name, [path], [path]⟩ ∈ crawl d "s" []) :
      Compares d o defaultLimit name c :=
    ⟨_, hmem, rfl, by simp, _, hload _ hmem, rfl, by decide +kernel⟩
  have hx : Compares d o defaultLimit "x" c := hcompares (by rw [hcrawl]; exact .head _)
  have hy : Compares d o defaultLimit "y" c := hcompares (by rw [hcrawl]; exact .tail _ (.head _))
  have hscan : IsScannable d o defaultLimit := by
    refine ⟨rfl, fun s hmem _ loaded hl => ⟨fun _ _ => rfl, ?_⟩⟩
    obtain rfl := Except.ok.inj ((hload s hmem).symm.trans hl)
    exact RawText.isText_ofString c
  have hoverall : (compareTexts .adaptive c c).overall = 100 := by
    have hn : Text.normalize c ≠ "" := by decide +kernel
    simp [compareTexts, Route.of, hn, Report.ofRoute, Report.uniform]
  obtain ⟨-, hgets, hall⟩ := evaluate_ranks (o := o) hd (by decide +kernel) rfl rfl rfl
  obtain ⟨r, he⟩ := hgets.2 hscan
  exact ⟨r, he, ((hall r he).1 _).2 ⟨"x", "y", c, c, hx, hy, by decide, hoverall.ge, rfl⟩⟩

end Semblance
