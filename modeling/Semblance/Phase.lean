import Semblance.Token
import Semblance.Similarity.Alignment
import Semblance.Similarity.Overlap

/-!
# Phases of a comparison

A comparison scores three signals of two token lists, each from `0` to `100`: the words of the program, its skeleton
of marks, and its control flow.  Every signal is scored in one of two ways, with respect to order (windows of
neighbouring tokens, edit distance, longest common subsequence) or as the overlap of plain sets.  A signal that one
side lacks scores `0`.
-/

namespace Semblance

/-- What one phase of a comparison found. -/
structure Phase where
  score : Int
  details : String
  findings : List String
  deriving DecidableEq, Repr, Inhabited

namespace Token

/-- What a token looks like when names and literals do not count: a keyword stands for itself, any other token for
its class. -/
def sign (t : Token) : String :=
  match t.kind with
  | .keyword => t.value
  | .identifier => "ID"
  | .operator => "OP"
  | .literal => "LIT"
  | .punctuation => "PUN"
  | .foreign tag => tag

end Token

/-- The signs of a token list. -/
def signature (tokens : List Token) : List String :=
  tokens.map Token.sign

/-- The signs of a token list, unless one of the tokens has none. -/
def signature? (tokens : List Token) : Except TokenError (List String) := do
  return signature (← tokens.mapM (Token.known? .unknownKind))

namespace Phase

/-- The overlap of the windows of signs. -/
def lexical (a b : List Token) : Phase :=
  let n := windowSize a.length b.length
  let windowsA := distinctWindows n (signature a)
  let windowsB := distinctWindows n (signature b)
  let score := if windowsA.isEmpty || windowsB.isEmpty then 0 else percent (overlap windowsA windowsB)
  { score
    details := s!"Jaccard overlap of {n}-gram token signatures, resistant to renaming."
    findings := [s!"Lexical similarity: {score}%", s!"Unique {n}-grams in A: {windowsA.length}"] }

/-- The overlap of the windows of signs, unless a token has no sign. -/
def lexical? (a b : List Token) : Except TokenError Phase := do
  let _ ← signature? a
  let _ ← signature? b
  return lexical a b

/-- The share of the longer skeleton that the edit distance leaves. -/
def structural (a b : List Token) : Phase :=
  let skeletonA := (skeleton a).toList
  let skeletonB := (skeleton b).toList
  let longer := max skeletonA.length skeletonB.length
  let score :=
    if skeletonA.isEmpty || skeletonB.isEmpty then 0
    else percent (ratio (longer - editDistance skeletonA skeletonB) longer)
  { score
    details := "Levenshtein distance between keyword and punctuation skeletons."
    findings := [s!"Structural similarity: {score}%", s!"Skeleton A length: {skeletonA.length}"] }

/-- The share that the longest common subsequence of control-flow keywords has of the longer sequence. -/
def controlFlow (a b : List Token) : Phase :=
  let flowA := Semblance.controlFlow a
  let flowB := Semblance.controlFlow b
  let score :=
    if flowA.isEmpty || flowB.isEmpty then 0
    else percent (ratio (commonLength flowA flowB) (max flowA.length flowB.length))
  { score
    details := "Longest common subsequence of control-flow keywords."
    findings := [s!"Control flow similarity: {score}%", s!"Decision keywords in A: {flowA.length}"] }

/-- The overlap of the token values. -/
def lexicalSet (a b : List Token) : Phase :=
  let score := percent (overlap (a.map Token.value) (b.map Token.value))
  { score, details := "Jaccard overlap of token values.", findings := [s!"Lexical similarity: {score}%"] }

/-- The overlap of the marks. -/
def structuralSet (a b : List Token) : Phase :=
  let marks (tokens : List Token) := (tokens.filter Token.isMark).map Token.value
  let score := percent (overlap (marks a) (marks b))
  { score, details := "Jaccard overlap of keyword and punctuation markers.",
    findings := [s!"Structural similarity: {score}%"] }

/-- The overlap of the control-flow keywords. -/
def controlFlowSet (a b : List Token) : Phase :=
  let score := percent (overlap (Semblance.controlFlow a) (Semblance.controlFlow b))
  { score, details := "Jaccard overlap of control-flow keywords.",
    findings := [s!"Control flow similarity: {score}%"] }

end Phase

end Semblance
