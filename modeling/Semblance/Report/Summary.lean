import Semblance.Report
import Semblance.Text.Blank

/-!
# Plain views

A report as a short table, and the tokens of a text as a trace, both as plain text with aligned columns.
-/

namespace Semblance

/-- A text with spaces after it, to a width. -/
def padRight (width : Nat) (text : String) : String :=
  text ++ String.ofList (List.replicate (width - text.length) ' ')

/-- A text with spaces before it, to a width. -/
def padLeft (width : Nat) (text : String) : String :=
  String.ofList (List.replicate (width - text.length) ' ') ++ text

/-- A line of the table for a phase. -/
def Phase.summaryLine (label : String) (p : Phase) : String :=
  "  " ++ padRight 13 label ++ " " ++ padLeft 3 (toString p.score) ++ "%  " ++ p.details

/-- A line of the table for a shared line. -/
def SharedLine.summaryLine (s : SharedLine) : String :=
  "  A:" ++ padRight 5 (toString s.lineA) ++ " B:" ++ padRight 5 (toString s.lineB) ++ " " ++ s.content

/-- A report as a table; of the shared lines, the first ten are shown. -/
def Report.summary (r : Report) : String :=
  let phaseLines := r.phases.map fun (label, phase) => phase.summaryLine label
  let sharedLines :=
    if r.sharedLines.isEmpty then []
    else s!"Shared lines: {r.sharedLines.length}" :: (r.sharedLines.take 10).map SharedLine.summaryLine
  "\n".intercalate
    (s!"Verdict: {r.verdict.name} ({r.overall}%)  [strategy: {r.policyText}]" :: phaseLines ++ sharedLines)

/-- The tokens of a text one by one, and its marks on one line. -/
def traceText (tokens : List Token) : String :=
  let marks := tokens.filter Token.isMark
  let markText := marks.map fun t => if t.kind = .keyword then t.value ++ " " else t.value
  "\n".intercalate
    (s!"TOKENS: {tokens.length}" ::
      tokens.map (fun t => "  " ++ padRight 12 t.kind.tag ++ " " ++ t.value) ++
      [s!"MARKERS: {marks.length}", "  " ++ Text.trimmed (String.join markText)])

/-- The trace of a text, unless a token has no class to show. -/
def traceText? (tokens : List Token) : Except TokenError String := do
  return traceText (← tokens.mapM (Token.known? fun _ => .noTag))

end Semblance
