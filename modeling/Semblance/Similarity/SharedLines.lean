import Std.Data.HashMap
import Semblance.Report
import Semblance.Text.Lines
import Semblance.Token.Lexer

/-!
# Shared lines

A line is significant when it has at least twelve characters after its white space is normalized, and a name or a
keyword among its tokens.  Each significant line of the first text is paired with the first significant line of the
second text that is equal to it and not paired yet.
-/

namespace Semblance

/-- A line that says enough to be worth matching. -/
def isSignificant (line : String) : Bool :=
  12 ≤ line.length && (tokenize line).any Token.isWord

/-- The significant lines of a text, normalized, with their line numbers. -/
def significantLines (text : String) : List (Nat × String) :=
  ((Text.lines text.toList).zipIdx 1).filterMap fun (chars, number) =>
    let line := Text.normalize (String.ofList chars)
    if isSignificant line then some (number, line) else none

/-- The line numbers at which each line occurs, in order. -/
def occurrences (lines : List (Nat × String)) : Std.HashMap String (List Nat) :=
  lines.foldr (fun (number, line) found => found.insert line (number :: found.getD line [])) ∅

@[simp] theorem occurrences_nil : occurrences [] = ∅ := rfl

theorem occurrences_cons (number : Nat) (line : String) (lines : List (Nat × String)) :
    occurrences ((number, line) :: lines) =
      (occurrences lines).insert line (number :: (occurrences lines).getD line []) := rfl

/-- The line numbers of a line are those at which it occurs. -/
theorem getD_occurrences (lines : List (Nat × String)) (line : String) :
    (occurrences lines).getD line [] = (lines.filter (·.2 = line)).map (·.1) := by
  induction lines with
  | nil => simp
  | cons entry lines ih =>
    obtain ⟨number, other⟩ := entry
    rw [occurrences_cons, Std.HashMap.getD_insert]
    by_cases h : other = line
    · subst h
      simp [ih]
    · simp [h, ih]
/-- Pairs numbered lines with the numbers that are still free, after the pairs `done` (reversed). -/
def pairLines (done : List SharedLine) (free : Std.HashMap String (List Nat)) :
    List (Nat × String) → List SharedLine
  | [] => done.reverse
  | (number, line) :: rest =>
    match free.getD line [] with
    | [] => pairLines done free rest
    | partner :: others =>
      pairLines (⟨number, partner, line, some "EXACT"⟩ :: done) (free.insert line others) rest

theorem pairLines_eq (done : List SharedLine) (free : Std.HashMap String (List Nat)) (lines : List (Nat × String)) :
    pairLines done free lines = done.reverse ++ pairLines [] free lines := by
  induction lines generalizing done free with
  | nil => simp [pairLines]
  | cons line rest ih =>
    unfold pairLines
    split
    · exact ih done free
    · rename_i partner others h
      rw [ih, ih [_]]
      simp

/-- The lines that two texts share. -/
def sharedLines (a b : String) : List SharedLine :=
  pairLines [] (occurrences (significantLines b)) (significantLines a)

end Semblance
