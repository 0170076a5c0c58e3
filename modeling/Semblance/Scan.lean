import Semblance.Comparison.Request
import Semblance.Report.Page
import Semblance.Submission.Anomaly
import Semblance.Submission.Crawl
import Semblance.Submission.Loading

/-!
# Scans

A scan compares every two submissions below a folder.  It first assesses each submission: its content is accepted, or
an anomaly says why it is left out.  Then it compares the accepted ones pair by pair, in the order of their names,
and ranks the pairs that reach a threshold by their scores; pairs of equal score stay in the order of the names.  A
page with the ranking is written if a path for it is given.
-/

namespace Semblance

/-- What a scan found out about one submission. -/
structure Assessment where
  submitter : RawText
  /-- The content, if the submission takes part in the comparison. -/
  content : Option String
  anomalies : List Anomaly
  messages : List RawText
  log : List RawText
  deriving DecidableEq, Repr

/-- The assessment of a submission without source files. -/
def Assessment.ofFiles (s : Submission) : Assessment :=
  let seen := s.files.map fun path =>
    let extension := Path.extension path
    if extension.isEmpty then ↑"(none)" else extension
  ⟨s.submitter, none, [.noSource (distinct seen)], [], []⟩

/-- The anomalies of a submission whose source files have been loaded: an error in loading is one only if nothing is
left. -/
def Loaded.anomalies (loaded : Loaded) (limit : SizeLimit) : Except Failure (List Anomaly) :=
  match loaded.errors.getLast? with
  | some reason => if loaded.content.isEmpty then .ok [.loadFailed reason] else validate loaded.content limit
  | none => validate loaded.content limit

/-- The lines that are printed about loaded files: each error under the name of the submitter. -/
def Loaded.messages (loaded : Loaded) (submitter : RawText) : List RawText :=
  loaded.errors.map fun error => "  " ++ submitter ++ ": " ++ error

/-- The assessment of a submission whose source files have been loaded, given its anomalies. -/
def Assessment.ofLoaded (submitter : RawText) (loaded : Loaded) (found : List Anomaly) : Assessment where
  submitter := submitter
  content := if found.any Anomaly.isError then none else loaded.content.text
  anomalies := found
  messages := loaded.messages submitter
  log := loaded.log

/-- Prints lines, if the output takes all of them.  Lines without names, which are the same in every scan, it takes
always. -/
def Host.print (host : Host) (lines : List RawText) : Except Failure Unit :=
  match lines.findSome? host.refusal? with
  | some reason => .error (.output reason)
  | none => .ok ()

/-- Loads a submission and says whether it takes part in the comparison. -/
def assess (d : Disk) (limit : SizeLimit) (s : Submission) : Except Failure Assessment := do
  if s.sources.isEmpty then return .ofFiles s
  else
    let loaded ← loadSubmission d s.sources limit
    d.host.print (loaded.messages s.submitter)
    return .ofLoaded s.submitter loaded (← loaded.anomalies limit)

/-- The accepted contents of some assessments, by the names of their submitters. -/
def acceptedContents (assessments : List Assessment) : List (RawText × String) :=
  sortByName (assessments.filterMap fun a => a.content.map fun content => (a.submitter, content))

/-- All pairs of entries of a list, an earlier entry first. -/
def allPairs {α : Type} : List α → List (α × α)
  | [] => []
  | x :: rest => rest.map (fun y => (x, y)) ++ allPairs rest

/-- The pairs are the sublists of two entries. -/
theorem mem_allPairs {α : Type} {x y : α} {l : List α} : (x, y) ∈ allPairs l ↔ [x, y].Sublist l := by
  induction l with
  | nil => simp [allPairs]
  | cons z l ih =>
    simp only [allPairs, List.mem_append, List.mem_map, Prod.mk.injEq, ih]
    constructor
    · rintro (⟨w, hw, rfl, rfl⟩ | h)
      · exact (List.singleton_sublist.2 hw).cons_cons _
      · exact h.cons _
    · intro h
      cases h with
      | cons _ h => exact .inr h
      | cons_cons _ h => exact .inl ⟨y, List.singleton_sublist.1 h, rfl, rfl⟩

/-- The comparison of two named contents. -/
def comparePair (p : Policy) (pair : (RawText × String) × (RawText × String)) : ComparedPair RawText :=
  let ((first, content1), (second, content2)) := pair
  ⟨first, second, compareTexts p content1 content2, content1, content2⟩

/-- The pairs whose score reaches the threshold, the highest score first. -/
def rank (threshold : Number) (pairs : List (ComparedPair RawText)) : List (ComparedPair RawText) :=
  (pairs.filter fun pair => !threshold.isAbove pair.report.overall).mergeSort fun a b =>
    decide (b.report.overall ≤ a.report.overall)

/-- The log line of a comparison that gave a pair. -/
def ComparedPair.logLine (pair : ComparedPair RawText) : String :=
  (Route.of pair.source1 pair.source2).logLine pair.report

/-- What a scan is asked to do.  The path of the page, the policy, the limit and the title may be missing, with the
reason, and the threshold may be any value; that matters only where they are used. -/
structure ScanOptions where
  root : RawText
  threshold : Json := .ofInt 0
  /-- Where the page goes; nowhere if the path is empty. -/
  output : Except RequestError RawText := .ok ""
  policy : Except RequestError Policy := .ok .adaptive
  extensions : List String := []
  limit : SizeLimit := .ok defaultLimit
  title : Except RequestError String := .ok "CodeGuard"

/-- What a scan gives. -/
structure ScanResult where
  pairs : List (ComparedPair RawText)
  anomalies : List (RawText × List Anomaly)
  printed : List RawText
  log : List RawText

/-- The assessments of the submissions below a folder. -/
def survey (d : Disk) (o : ScanOptions) : Except Failure (List Assessment) := do
  let submissions ← crawl? d o.root o.extensions
  submissions.mapM (assess d o.limit)

/-- The anomalies of each submission that has any. -/
def anomalyEntries (assessments : List Assessment) : List (RawText × List Anomaly) :=
  (assessments.filter fun a => !a.anomalies.isEmpty).map fun a => (a.submitter, a.anomalies)

/-- Compares all pairs of accepted contents, and ranks those that reach the threshold.  Gives the ranked pairs and
the log of all comparisons. -/
def compareAll (policy : Except RequestError Policy) (threshold : Json)
    (contents : List (RawText × String)) : Except RequestError (List (ComparedPair RawText) × List String) :=
  match allPairs contents with
  | [] => .ok ([], [])
  | pairs => do
    let p ← policy
    let least ← threshold.number? .lowerBound
    let compared := pairs.map (comparePair p)
    return (rank least compared, compared.map ComparedPair.logLine)

/-- Scans a folder without writing a page. -/
def evaluate (d : Disk) (o : ScanOptions) : Except Failure ScanResult := do
  let assessments ← survey d o
  let (pairs, log) ← (compareAll o.policy o.threshold (acceptedContents assessments)).mapError .request
  return {
    pairs
    anomalies := anomalyEntries assessments
    printed := [↑"Step 1: Crawling and loading submissions..."] ++ assessments.flatMap Assessment.messages ++
      [↑"Step 2: Pairwise comparison..."]
    log := assessments.flatMap Assessment.log ++ log.map RawText.ofString }

/-- The page of a scan, with names as they are to be written. -/
def ScanResult.page (r : ScanResult) (title : String) (threshold : Json) (write : RawText → String) : String :=
  Page.text title threshold.shown
    (r.pairs.map fun pair => { pair with submitter1 := write pair.submitter1, submitter2 := write pair.submitter2 })
    (r.anomalies.map fun (submitter, found) => (write submitter, found.map fun a => write a.message))

/-- Writes a text to a file, which is there before the text is encoded.  Of a text that cannot be encoded only the
part `before` is written. -/
def writeText (d : Disk) (path : RawText) (before : String) (content : Except StrayRun String) :
    Except Failure Unit × Disk :=
  match d.write path (Text.encode (content.toOption.getD before)) with
  | .error e => (.error (.files e), d)
  | .ok written => (content.map (fun _ => ()) |>.mapError .encoding, written)

/-- Writes a page.  The folders in which it lies are made first, by the text of the path, and then the page has to be
there. -/
def writePage {α : Type} (d : Disk) (path : RawText) (ofFailure : Failure → α) (page : Except α RawText) :
    Except α Unit × Disk :=
  match d.makeParents (Path.absolute d.working path) with
  | (.error e, made) => (.error (ofFailure (.files e)), made)
  | (.ok (), made) =>
    match page with
    | .error e => (.error e, made)
    | .ok content =>
      let (written, d) := writeText made path "" content.decoded
      (written.mapError ofFailure, d)

/-- Scans a folder. -/
def scan (d : Disk) (o : ScanOptions) : Except Failure ScanResult × Disk :=
  match evaluate d o with
  | .error e => (.error e, d)
  | .ok r =>
    match o.output with
    | .error e => (.error (.request e), d)
    | .ok output =>
      if output.isEmpty then (.ok r, d)
      else
        let page := (o.title.mapError .request).map fun title => RawText.ofShown (r.page title o.threshold)
        match writePage d output id page with
        | (.error e, d) => (.error e, d)
        | (.ok (), d) =>
          let line := "Report written to " ++ output
          match d.host.print [line] with
          | .error e => (.error e, d)
          | .ok () => (.ok { r with printed := r.printed ++ [line] }, d)

/-- The pairs and anomalies of a scan as JSON, with names as they are to be written. -/
def ScanResult.toJson (r : ScanResult) (write : RawText → String) : Json :=
  let pairs := r.pairs.map fun pair =>
    Json.object [("submitter1", .string (write pair.submitter1)), ("submitter2", .string (write pair.submitter2)),
      ("report", pair.report.toJson)]
  let anomalies := r.anomalies.map fun (submitter, found) =>
    Json.object [("submitter", .string (write submitter)), ("anomalies", .array (found.map (Anomaly.toJson write)))]
  .object [("pairs", .array pairs), ("anomalies", .array anomalies)]

/-- The texts that are written as JSON with names in them, in their order. -/
def ScanResult.names (r : ScanResult) : List RawText :=
  r.pairs.flatMap (fun pair => [pair.submitter1, pair.submitter2]) ++
    r.anomalies.flatMap fun (submitter, found) => submitter :: found.map Anomaly.message

/-- Writes the pairs and anomalies of a scan as JSON.  The strings are encoded one by one, so everything before the
first that cannot be encoded is written. -/
def writeJson (d : Disk) (path : RawText) (r : ScanResult) : Except Failure Unit × Disk :=
  let whole := RawText.ofShown fun write => (r.toJson write).pretty
  let quoted (t : RawText) := RawText.ofShown fun write => Json.quote false (write t)
  match whole.decoded, r.names.findSome? fun t => RawText.strayRunFrom 0 (quoted t) with
  | .error e, some inString =>
    writeText d path (RawText.text (whole.take (e.position - inString.position))) (.error inString)
  | content, _ => writeText d path "" content

end Semblance
