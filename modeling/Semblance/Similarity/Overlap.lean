import Std.Data.HashSet
import Semblance.Number.Rounding

/-!
# Overlap of word sets

The overlap of two lists of words is the share that the words of both have among the words of either, each counted
once.  The words compared may be single words or *windows*: all runs of a fixed number of neighbouring words.
-/

namespace Semblance

/-- The distinct entries of a list, sorted; words are sorted by code point. -/
def distinct {α : Type} [DecidableEq α] [LE α] [DecidableLE α] (words : List α) : List α :=
  (words.mergeSort fun a b => decide (a ≤ b)).foldr
    (fun w done => if done.head? = some w then done else w :: done) []

theorem mem_distinct {α : Type} [DecidableEq α] [LE α] [DecidableLE α] {w : α} {words : List α} :
    w ∈ distinct words ↔ w ∈ words := by
  have h : ∀ l : List α,
      w ∈ l.foldr (fun w done => if done.head? = some w then done else w :: done) [] ↔ w ∈ l := by
    intro l
    induction l with
    | nil => simp
    | cons v l ih =>
      rw [List.foldr_cons, List.mem_cons]
      split
      · rename_i hv
        rw [ih]
        constructor
        · exact .inr
        · rintro (rfl | h)
          · exact ih.1 (List.mem_of_mem_head? hv)
          · exact h
      · rw [List.mem_cons, ih]
  rw [distinct, h, List.mem_mergeSort]

/-- The distinct words that two lists share. -/
def shared (a b : List String) : List String :=
  let known := Std.HashSet.ofList b
  (distinct a).filter known.contains

/-- The overlap of two lists of words: `0` when both are empty. -/
def overlap (a b : List String) : Rat :=
  ratio (shared a b).length (distinct (a ++ b)).length

/-- The endings of a list, the list itself first and the empty list last. -/
def endings (words : List String) : List (List String) :=
  words.foldr (fun w done => (w :: done.headD []) :: done) [[]]

@[simp] theorem endings_nil : endings [] = [[]] := rfl

theorem endings_cons (w : String) (words : List String) : endings (w :: words) = (w :: words) :: endings words := by
  have step (w : String) (words : List String) :
      endings (w :: words) = (w :: (endings words).headD []) :: endings words := rfl
  have head (words : List String) : (endings words).headD [] = words := by
    induction words with
    | nil => rfl
    | cons w words ih => rw [step, List.headD_cons, ih]
  rw [step, head]

/-- The runs of `n` neighbouring words, each written with single spaces between the words. -/
def windows (n : Nat) (words : List String) : List String :=
  (((endings words).map (·.take n)).filter (·.length = n)).map (" ".intercalate ·)

/-- The words from the place `start` up to the place `start + size`.  A stop before the first word counts from the
end of the list, and a stop beyond either end is moved to that end. -/
def span (size : Int) (words : List String) (start : Nat) : List String :=
  let stop := start + size
  let stop := if stop < 0 then stop + words.length else stop
  (words.take stop.toNat).drop start

/-- The distinct windows of a size that may also be zero or negative; there is one window for each start from `0`
to the number of words less the size. -/
def distinctWindows (size : Int) (words : List String) : List String :=
  if 0 < size then distinct (windows size.toNat words)
  else
    let starts := List.range (words.length - size + 1).toNat
    distinct (starts.map fun start => " ".intercalate (span size words start))

/-- The window size for two lists of the given lengths: a fifth of the shorter length, but at least one and at most
three. -/
def windowSize (lengthA lengthB : Int) : Int :=
  max 1 (min 3 (Int.fdiv (min lengthA lengthB) 5))

end Semblance
