import Semblance.Submission.Limit
import Semblance.Text.Lines
import Semblance.Token.Lexer

/-!
# Anomalies

What can be odd about a submission: it has no source files, its files cannot be loaded, it is empty or too large, or
it has few tokens or mostly comments.  The first four are errors, which keep a submission out of the comparison; the
last two are warnings.
-/

namespace Semblance

/-- Something odd about a submission. -/
inductive Anomaly where
  | noSource (extensions : List RawText)
  | loadFailed (reason : RawText)
  | emptyFile
  | tooLarge (size : Nat) (limit : Number)
  | fewTokens (count : Nat)
  | highCommentRatio (ratio : Rat)
  deriving DecidableEq, Repr

namespace Anomaly

def code : Anomaly → String
  | noSource _ => "NO_SOURCE"
  | loadFailed _ => "LOAD_FAILED"
  | emptyFile => "EMPTY_FILE"
  | tooLarge _ _ => "TOO_LARGE"
  | fewTokens _ => "FEW_TOKENS"
  | highCommentRatio _ => "HIGH_COMMENT_RATIO"

/-- Whether the submission is kept out of the comparison. -/
def isError : Anomaly → Bool
  | fewTokens _ | highCommentRatio _ => false
  | _ => true

def severity (a : Anomaly) : String :=
  if a.isError then "error" else "warning"

def message : Anomaly → RawText
  | noSource extensions => "No source files found (saw " ++ (", " : RawText).intercalate extensions ++ ")"
  | loadFailed reason => reason
  | emptyFile => "Source is empty"
  | tooLarge size limit => s!"Source too large ({size} bytes, limit {limit.text})"
  | fewTokens count => s!"Too few tokens ({count})"
  | highCommentRatio ratio =>
    let percentage := fixed1 (nearest (ratio * 100))
    s!"Comment ratio too high ({percentage}%)"

/-- The measured values behind an anomaly. -/
def details : Anomaly → List (String × Number)
  | tooLarge size limit => [("size", .whole size), ("limit", limit)]
  | fewTokens count => [("count", .whole count)]
  | highCommentRatio ratio => [("ratio", .real (.finite ratio))]
  | _ => []

/-- An anomaly as JSON, with names as they are to be written. -/
def toJson (write : RawText → String) (a : Anomaly) : Json :=
  let measured := a.details.map fun (name, value) => (name, Json.number value)
  .object ([("code", .string a.code), ("severity", .string a.severity), ("message", .string (write a.message))] ++
    if measured.isEmpty then [] else [("details", .object measured)])

end Anomaly

/-- Whether a line has the closing mark of a block comment. -/
def closesComment : List Char → Bool
  | [] => false
  | '*' :: '/' :: _ => true
  | _ :: rest => closesComment rest

/-- The number of comment lines among lines without white space at their ends.  `inside` tells that a block comment
is open before the first of them. -/
def countCommentLines (count : Nat) (inside : Bool) : List (List Char) → Nat
  | [] => count
  | line :: rest =>
    if inside then countCommentLines (count + 1) (!closesComment line) rest
    else
      match line with
      | '/' :: '/' :: _ => countCommentLines (count + 1) false rest
      | '/' :: '*' :: _ => countCommentLines (count + 1) (!closesComment line) rest
      | _ => countCommentLines count false rest

/-- The share of comment lines among the lines that are not blank. -/
def commentRatio (content : String) : Rat :=
  let lines := ((Text.lines content.toList).map Text.trim).filter (!·.isEmpty)
  ratio (countCommentLines 0 false lines) lines.length

/-- Whether a text is nothing but white space. -/
def isBlankText (content : String) : Bool :=
  content.toList.all Text.isBlank

/-- What is odd about the content of a submission, given the greatest size in bytes that is accepted. -/
def anomalies (content : String) (limit : Number) : List Anomaly :=
  if isBlankText content then [.emptyFile]
  else if limit.isBelow content.utf8ByteSize then [.tooLarge content.utf8ByteSize limit]
  else
    let count := (tokenize content).length
    let comments := commentRatio content
    (if count < 10 then [.fewTokens count] else []) ++
      (if nearest (4 / 5) < comments then [.highCommentRatio comments] else [])

/-- What is odd about the content of a submission.  A blank content needs no limit; any other has to be encoded. -/
def validate (content : RawText) (limit : SizeLimit) : Except Failure (List Anomaly) := do
  if content.isBlank then return [.emptyFile]
  else
    let text ← content.decoded.mapError .encoding
    return anomalies text (← limit.get)

theorem validate_ok (content : String) (limit : Number) :
    validate content (.ok limit) = .ok (anomalies content limit) := by
  have hblank : RawText.isBlank content = isBlankText content := by
    simp [RawText.isBlank, RawText.ofString, isBlankText, Function.comp_def, RawChar.isBlank]
  rw [validate, hblank]
  split
  · rename_i h
    rw [anomalies, if_pos h]
    rfl
  · rw [RawText.decoded_ofString]
    rfl

end Semblance
