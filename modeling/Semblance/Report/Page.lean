import Semblance.Report.Json
import Semblance.Text.Markup

/-!
# The page of a scan

A scan is shown as one page: the counts, the warnings about submissions, a table of the pairs, and a window that
shows both sources of a pair next to each other.  All data is written with entities, and the window reads its data
from hidden elements of the page.
-/

namespace Semblance

/-- Two submissions with the report on them; their names are texts of some kind. -/
structure ComparedPair (α : Type) where
  submitter1 : α
  submitter2 : α
  report : Report
  source1 : String
  source2 : String
  deriving DecidableEq, Repr

namespace Page

/-- The rules of the style sheet: selectors with their declarations. -/
def styles : List (String × String) :=
  [ ("body",
      "font-family: 'Segoe UI', Tahoma, Geneva, Verdana, sans-serif; margin: 0; padding: 20px; " ++
        "background-color: #f4f4f9; color: #333;"),
    ("h1", "text-align: center; color: #2c3e50;"),
    (".container",
      "max-width: 1200px; margin: 0 auto; background: white; padding: 20px; border-radius: 8px; " ++
        "box-shadow: 0 2px 10px rgba(0,0,0,0.1);"),
    ("table", "width: 100%; border-collapse: collapse; margin-top: 20px;"),
    ("th, td", "padding: 12px; text-align: left; border-bottom: 1px solid #ddd; white-space: nowrap;"),
    ("th", "background-color: #3498db; color: white;"),
    ("tr:hover", "background-color: #f1f1f1; cursor: pointer;"),
    (".filter-info",
      "background-color: #e8f4f8; padding: 10px; border-radius: 4px; margin-bottom: 15px; border: 1px " ++
        "solid #bde0fe; color: #2c3e50;"),
    (".anomaly-section",
      "margin: 20px 0; padding: 15px; background: #fffbea; border-left: 4px solid #f39c12; border-radius: 4px;"),
    (".modal",
      "display: none; position: fixed; z-index: 1; left: 0; top: 0; width: 100%; height: 100%; overflow: " ++
        "auto; background-color: rgba(0,0,0,0.4);"),
    (".modal-content",
      "background-color: #fefefe; margin: 2% auto; padding: 20px; border: 1px solid #888; width: 85%; " ++
        "height: 90%; border-radius: 8px; display: flex; flex-direction: column;"),
    (".close", "color: #aaa; font-size: 28px; font-weight: bold; cursor: pointer;"),
    (".comparison-view", "display: flex; flex: 1; gap: 20px; overflow: hidden;"),
    (".code-block",
      "flex: 1; display: flex; flex-direction: column; overflow: hidden; border: 1px solid #ddd; " ++
        "border-radius: 4px;"),
    (".code-block h3", "margin: 10px; background: #eee; padding: 5px; border-radius: 4px;"),
    ("pre",
      "margin: 0; padding: 10px; font-family: 'Consolas', 'Monaco', monospace; font-size: 14px; " ++
        "line-height: 1.5; overflow: auto; flex: 1; background: #f8f8f8;"),
    (".explanation",
      "background: #e8f6f3; padding: 15px; border-left: 5px solid #1abc9c; margin-bottom: 15px; " ++
        "max-height: 200px; overflow-y: auto; white-space: pre-wrap;") ]

/-- The style sheet. -/
def styleLines : List String :=
  styles.map fun (selector, declarations) =>
    "            " ++ selector ++ " \x7b " ++ declarations ++ " \x7d"

/-- Lines with a break before the first, and a last line of `indent` spaces that the next fragment continues. -/
def fragment (indent : Nat) (lines : List String) : String :=
  "\n" ++ "\n".intercalate lines ++ "\n" ++ String.ofList (List.replicate indent ' ')

/-- The start of the page, up to the least score and the counts of all pairs and of the pairs with each verdict. -/
def opening (title threshold : String) (pairs : List (ComparedPair String)) : String :=
  let count (v : Verdict) := (pairs.filter (·.report.verdict = v)).length
  let shownTitle := Text.markup title
  let plagiarized := count .plagiarized
  let similar := count .similar
  let original := count .original
  fragment 4 <|
    [ "    <!DOCTYPE html>",
      "    <html lang=\"en\">",
      "    <head>",
      "        <meta charset=\"UTF-8\">",
      "        <meta name=\"viewport\" content=\"width=device-width, initial-scale=1.0\">",
      s!"        <title>{shownTitle} - Similarity Report</title>",
      "        <style>" ] ++
    styleLines ++
    [ "        </style>",
      "    </head>",
      "    <body>",
      "        <div class=\"container\">",
      s!"            <h1>{shownTitle} - Similarity Report</h1>",
      "            <div class=\"filter-info\">",
      s!"                <strong>Listed:</strong> overall score &gt;= {threshold} |",
      s!"                <strong>Pairs:</strong> {pairs.length} |",
      s!"                <strong>PLAGIARIZED:</strong> {plagiarized} |",
      s!"                <strong>SIMILAR:</strong> {similar} |",
      s!"                <strong>ORIGINAL:</strong> {original}",
      "            </div>" ]

/-- The warnings about one submission. -/
def warning (submitter : String) (messages : List String) : String :=
  let name := Text.markup submitter
  let text := Text.markup ("; ".intercalate messages)
  fragment 12 [s!"                    <li><strong>{name}</strong>: {text}</li>"]

/-- The section of warnings, if there are any. -/
def warningSection (warnings : List (String × List String)) : String :=
  if warnings.isEmpty then ""
  else
    fragment 8
      [ "            <div class=\"anomaly-section\">",
        "                <h3 style=\"margin-top: 0; color: #d68910;\">⚠️ Submission warnings " ++
          s!"({warnings.length})</h3>",
        "                <ul>" ] ++
    String.join (warnings.map fun (submitter, messages) => warning submitter messages) ++
    fragment 8
      [ "                </ul>",
        "            </div>" ]

/-- The head of the table of pairs. -/
def tableHead : String :=
  fragment 4
    [ "            <table>",
      "                <thead>",
      "                    <tr>",
      "                        <th>Rank</th>",
      "                        <th>Submission 1</th>",
      "                        <th>Submission 2</th>",
      "                        <th>Overall</th>",
      "                        <th>Lexical</th>",
      "                        <th>Structural</th>",
      "                        <th>Control Flow</th>",
      "                        <th>Verdict</th>",
      "                    </tr>",
      "                </thead>",
      "                <tbody>" ]

/-- The colour and the sign of a verdict. -/
def verdictStyle : Verdict → String × String
  | .plagiarized => ("#e74c3c", "🔴")
  | .similar => ("#f39c12", "🟡")
  | .original => ("#27ae60", "🟢")

/-- The row of a pair, with its hidden data; `i` is its place in the table. -/
def row (i : Nat) (pair : ComparedPair String) : String :=
  let report := pair.report
  let (color, sign) := verdictStyle report.verdict
  let first := Text.markup pair.submitter1
  let second := Text.markup pair.submitter2
  let source1 := Text.markup pair.source1
  let source2 := Text.markup pair.source2
  let explanation := Text.markup (report.explanation.getD "")
  let data := Text.markup report.toJson.compact
  fragment 8
    [ s!"            <tr onclick=\"openModal('{i}')\">",
      s!"                <td>{i + 1}</td>",
      s!"                <td>{first}</td>",
      s!"                <td>{second}</td>",
      s!"                <td><strong>{report.overall}%</strong></td>",
      s!"                <td>{report.lexical.score}%</td>",
      s!"                <td>{report.structural.score}%</td>",
      s!"                <td>{report.controlFlow.score}%</td>",
      s!"                <td><span style=\"color: {color}; font-weight: bold;\">{sign} {report.verdict.name}" ++
        "</span></td>",
      "            </tr>",
      "",
      "            <!-- Hidden data for modal -->",
      s!"            <div id=\"data-{i}\" style=\"display:none;\">",
      s!"                <div class=\"student1\">{first}</div>",
      s!"                <div class=\"student2\">{second}</div>",
      s!"                <div class=\"code1\">{source1}</div>",
      s!"                <div class=\"code2\">{source2}</div>",
      s!"                <div class=\"explanation-text\">{explanation}</div>",
      s!"                <div class=\"report-json\">{data}</div>",
      "            </div>" ]

/-- The end of the page, with the window for a pair and the script that fills it. -/
def closing : String :=
  fragment 4
    [ "                </tbody>",
      "            </table>",
      "        </div>",
      "",
      "        <!-- Modal -->",
      "        <div id=\"myModal\" class=\"modal\">",
      "            <div class=\"modal-content\">",
      "                <div style=\"display: flex; justify-content: space-between; align-items: center; " ++
        "margin-bottom: 15px;\">",
      "                    <h2 id=\"modal-title\" style=\"margin: 0;\">Comparison</h2>",
      "                    <span class=\"close\" onclick=\"closeModal()\">&times;</span>",
      "                </div>",
      "                <div id=\"explanation\" class=\"explanation\"></div>",
      "                <div class=\"comparison-view\">",
      "                    <div class=\"code-block\">",
      "                        <h3 id=\"s1-name\">Submission 1</h3>",
      "                        <pre id=\"code1-view\"></pre>",
      "                    </div>",
      "                    <div class=\"code-block\">",
      "                        <h3 id=\"s2-name\">Submission 2</h3>",
      "                        <pre id=\"code2-view\"></pre>",
      "                    </div>",
      "                </div>",
      "            </div>",
      "        </div>",
      "",
      "        <script>",
      "            function openModal(id) \x7b",
      "                var data = document.getElementById('data-' + id);",
      "                var s1 = data.querySelector('.student1').textContent;",
      "                var s2 = data.querySelector('.student2').textContent;",
      "                document.getElementById('modal-title').textContent = s1 + ' vs ' + s2;",
      "                document.getElementById('s1-name').textContent = s1;",
      "                document.getElementById('s2-name').textContent = s2;",
      "                document.getElementById('code1-view').textContent = data.querySelector('.code1').textContent;",
      "                document.getElementById('code2-view').textContent = data.querySelector('.code2').textContent;",
      "                document.getElementById('explanation').textContent = " ++
        "data.querySelector('.explanation-text').textContent;",
      "                document.getElementById('myModal').style.display = 'block';",
      "            \x7d",
      "            function closeModal() \x7b",
      "                document.getElementById('myModal').style.display = 'none';",
      "            \x7d",
      "            window.onclick = function(event) \x7b",
      "                var modal = document.getElementById('myModal');",
      "                if (event.target == modal) \x7b",
      "                    modal.style.display = 'none';",
      "                \x7d",
      "            \x7d",
      "        </script>",
      "    </body>",
      "    </html>" ]

/-- The page of some pairs, given the least score that was listed, as it is shown, and the messages on submissions. -/
def text (title threshold : String) (pairs : List (ComparedPair String))
    (warnings : List (String × List String)) : String :=
  opening title threshold pairs ++ warningSection warnings ++ tableHead ++
    String.join (pairs.zipIdx.map fun (pair, i) => row i pair) ++ closing

end Page

end Semblance
