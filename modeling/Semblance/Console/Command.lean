import Semblance.Comparison.Request
import Semblance.Console.Arguments
import Semblance.Submission.Crawl
import Semblance.Submission.Limit

/-!
# Commands

What the program can be asked to do: compare two files, or scan a folder.  The options before the command hold for
both commands; each command has options of its own.  Two dashes in the place of a value leave an empty list, which is
refused where the value is used.
-/

namespace Semblance

/-- The options before the command. -/
structure Settings where
  verbose : Bool
  policy : Except RequestError Policy
  limit : SizeLimit

/-- A comparison of two files, with what to show besides. -/
structure CompareTask where
  fileA : Except RequestError String
  fileB : Except RequestError String
  json : Bool
  trace : Bool
  outline : Bool
  failOnPlagiarism : Bool

/-- A scan of a folder.  Nothing is written to an empty path. -/
structure ScanTask where
  root : Except RequestError String
  threshold : Json
  output : String
  json : String
  extensions : List String
  title : Except RequestError String

/-- A task of the program. -/
inductive Task where
  | compare (task : CompareTask)
  | scan (task : ScanTask)

/-- What the program is asked to do. -/
structure Command where
  settings : Settings
  task : Task

namespace Command

def helpOption : OptionSpec := ⟨["-h", "--help"], .flag, .text⟩

/-- The grammar of all arguments; the command takes those from its name on. -/
def grammar : Grammar where
  options :=
    [helpOption, ⟨["-v", "--verbose"], .flag, .text⟩, ⟨["--strategy"], .one, .choice (Policy.all.map Policy.name)⟩,
      ⟨["--max-bytes"], .one, .integer⟩]
  operands := [⟨"command", .choice ["compare", "scan"], true⟩]

/-- The grammar of a comparison. -/
def compareGrammar : Grammar where
  options :=
    [helpOption, ⟨["--json"], .flag, .text⟩, ⟨["--trace"], .flag, .text⟩, ⟨["--tree"], .flag, .text⟩,
      ⟨["--fail-on-plagiarism"], .flag, .text⟩]
  operands := [⟨"file_a", .text, false⟩, ⟨"file_b", .text, false⟩]

/-- The grammar of a scan. -/
def scanGrammar : Grammar where
  options :=
    [helpOption, ⟨["--threshold"], .one, .integer⟩, ⟨["--output"], .one, .text⟩, ⟨["--json"], .one, .text⟩,
      ⟨["--extensions"], .many, .text⟩, ⟨["--title"], .one, .text⟩]
  operands := [⟨"root", .text, false⟩]

/-- The text given to a name: `other` if the name is not given, an empty list if it is given no value. -/
def textOf (r : Reading) (name other : String) : Json :=
  match r.values? name with
  | none => .string other
  | some values => (values.head?.map Json.string).getD (.array [])

/-- The integer given to a name: `other` if the name is not given, an empty list if it is given no value. -/
def integerOf (r : Reading) (name : String) (other : Number) : Json :=
  match r.values? name with
  | none => .number other
  | some values => ((values.head?.bind Text.integer?).map Json.ofInt).getD (.array [])

/-- The path given to a name: `other` if the name is not given, the empty path if it is given no value. -/
def pathOf (r : Reading) (name other : String) : String :=
  (r.values? name).elim other fun values => values.headD ""

/-- The comparison that some arguments describe. -/
def compareTaskOf (r : Reading) : CompareTask where
  fileA := (textOf r "file_a" "").string? .place
  fileB := (textOf r "file_b" "").string? .place
  json := r.has "--json"
  trace := r.has "--trace"
  outline := r.has "--tree"
  failOnPlagiarism := r.has "--fail-on-plagiarism"

/-- The scan that some arguments describe. -/
def scanTaskOf (r : Reading) : ScanTask where
  root := (textOf r "root" "").string? .place
  threshold := integerOf r "--threshold" (.whole 0)
  output := pathOf r "--output" "reports/similarity_report.html"
  json := pathOf r "--json" ""
  extensions := (r.values? "--extensions").getD sourceExtensions
  title := (textOf r "--title" "CodeGuard").string? .markup

/-- The settings that some arguments describe. -/
def settingsOf (r : Reading) : Settings where
  verbose := r.has "--verbose"
  policy := Policy.ofJson? (textOf r "--strategy" Policy.adaptive.name)
  limit := SizeLimit.ofJson (integerOf r "--max-bytes" defaultLimit)

/-- Wrong arguments, and the name of the program or command that refuses them. -/
structure Refusal where
  program : String
  error : UsageError

/-- The line that tells about a refusal. -/
def Refusal.message (r : Refusal) : String :=
  s!"{r.program}: error: {r.error.message}"

/-- Reads arguments for a program or command of the given name. -/
def readFor (program : String) (g : Grammar) (arguments : List String) : Except Refusal Reading :=
  (g.read arguments).mapError fun e => ⟨program, e⟩

/-- The command that some arguments describe.  Arguments that no one expects are refused together at the end. -/
def ofArguments (arguments : List String) : Except Refusal Command := do
  let general ← readFor "codeguard" grammar arguments
  let own := (general.values? "command").getD []
  let (task, special) ←
    match own with
    | "compare" :: rest => do
      let r ← readFor "codeguard compare" compareGrammar rest
      pure (Task.compare (compareTaskOf r), r)
    | rest => do
      let r ← readFor "codeguard scan" scanGrammar (rest.drop 1)
      pure (Task.scan (scanTaskOf r), r)
  let extras := general.extras ++ special.extras
  if extras.isEmpty then return ⟨settingsOf general, task⟩
  else .error ⟨"codeguard", .unrecognized extras⟩

end Command

end Semblance
