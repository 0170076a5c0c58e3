import Semblance.Console.Command
import Semblance.Outline
import Semblance.Report.Summary
import Semblance.Scan

/-!
# Running commands

A command is run on a disk.  It gives an exit status, the text for the output and the text for messages, and the disk
with what was written; a value that does not suit its use and a file that cannot be written stop it.
-/

namespace Semblance

/-- What a command gives. -/
structure Outcome where
  status : Nat
  output : RawText
  messages : RawText
  deriving DecidableEq, Repr

/-- Lines with a line feed after each. -/
def unlines (lines : List RawText) : RawText :=
  lines.flatMap (· ++ ↑"\n")

namespace Command

/-- The log as messages, if it is wanted. -/
def messages (s : Settings) (log : List RawText) : RawText :=
  if s.verbose then unlines log else []

/-- The lines that a comparison prints before the outline. -/
def compareLines (task : CompareTask) (tokens : List Token) (report : Report) : List RawText :=
  let main := if task.json then [report.toJson.pretty] else [report.summary, "", report.explanation.getD ""]
  let trace := if task.trace then ["", traceText tokens] else []
  (main ++ trace).map RawText.ofString

/-- The lines of the outline, if it is wanted, which is written in up to `depth` further calls within the first. -/
def outlineLines (depth : Nat) (task : CompareTask) (tokens : List Token) : Except OutlineError (List RawText) := do
  if task.outline then return [[], ← (Outline.ofTokens tokens).render? depth 0 0]
  else return []

/-- What a comparison of two texts gives. -/
def compareOutcome (host : Host) (depth : Nat) (s : Settings) (task : CompareTask) (textA textB : String) :
    Except Failure Outcome := do
  let (report, logLine) := compareLogged (← s.policy.mapError .request) textA textB
  let tokens := tokenize textA
  let lines := compareLines task tokens report
  host.print lines
  let outline ← (outlineLines depth task tokens).mapError .outline
  host.print outline
  return {
    status := if task.failOnPlagiarism && report.verdict = .plagiarized then 1 else 0
    output := unlines (lines ++ outline)
    messages := messages s [↑logLine] }

/-- Compares two files, the first of which is read first. -/
def runCompare (d : Disk) (depth : Nat) (s : Settings) (task : CompareTask) : Except Failure Outcome := do
  match ← readSource d (← task.fileA.mapError .request) s.limit with
  | .error e => return ⟨2, [], unlines [e]⟩
  | .ok textA =>
    match ← readSource d (← task.fileB.mapError .request) s.limit with
    | .error e => return ⟨2, [], unlines [e]⟩
    | .ok textB => compareOutcome d.host depth s task textA textB

/-- A pair on one line. -/
def pairLine (pair : ComparedPair RawText) : RawText :=
  pair.submitter1 ++ " vs " ++ pair.submitter2 ++ s!": {pair.report.overall}% {pair.report.verdict.name}"

/-- The lines that a scan prints; of the pairs, the first five are shown. -/
def scanLines (r : ScanResult) : List RawText :=
  r.printed ++ [[], ↑s!"Listed {r.pairs.length} pairs."] ++ (r.pairs.take 5).map pairLine

/-- Scans a folder and writes what is asked for. -/
def scanOutcome (d : Disk) (s : Settings) (task : ScanTask) (root : String) : Except Failure Outcome × Disk :=
  let options : ScanOptions :=
    { root, threshold := task.threshold, output := .ok ↑task.output, policy := s.policy,
      extensions := task.extensions, limit := s.limit, title := task.title }
  match scan d options with
  | (.error e, d) => (.error e, d)
  | (.ok result, d) =>
    let outcome : Except Failure Outcome := do
      d.host.print ((result.pairs.take 5).map pairLine)
      return ⟨0, unlines (scanLines result), messages s result.log⟩
    if task.json.isEmpty then (outcome, d)
    else
      match writeJson d task.json result with
      | (.error e, d) => (.error e, d)
      | (.ok (), d) => (outcome, d)

/-- Scans a folder, if its path leads to one. -/
def runScan (d : Disk) (s : Settings) (task : ScanTask) : Except Failure Outcome × Disk :=
  match task.root with
  | .error e => (.error (.request e), d)
  | .ok root =>
    if d.isFolder root then scanOutcome d s task root
    else (.ok ⟨2, [], unlines [↑s!"Not a directory: {root}"]⟩, d)

/-- How the program is called. -/
def usage : List String :=
  [ "usage: codeguard [-h] [-v] [--strategy \x7badaptive,legacy\x7d] [--max-bytes MAX_BYTES] command ...",
    "",
    "Heuristic source code similarity checker.",
    "",
    "commands:",
    "  compare   Compare two source files",
    "  scan      Compare every pair of submissions in a directory" ]

/-- Runs the command that some arguments describe; an outline is written in up to `depth` further calls within the
first. -/
def run (d : Disk) (depth : Nat) (arguments : List String) : Except Failure Outcome × Disk :=
  match ofArguments arguments with
  | .error ⟨_, .helpWanted⟩ => (.ok ⟨0, unlines (usage.map RawText.ofString), []⟩, d)
  | .error refusal => (.ok ⟨2, [], unlines [↑refusal.message]⟩, d)
  | .ok ⟨s, .compare task⟩ => (runCompare d depth s task, d)
  | .ok ⟨s, .scan task⟩ => runScan d s task

end Command

end Semblance
