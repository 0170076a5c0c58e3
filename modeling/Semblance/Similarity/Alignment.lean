/-!
# Alignments

Two lists are compared head by head: a `Recurrence` says what a pair of lists is worth when one of them is empty, and
how the worth of two non-empty lists comes from that of their tails.  `Recurrence.value` is the recursion itself, and
`Recurrence.table` computes the same number row by row (`table_eq_value`).  The edit distance and the length of the
longest common subsequence are two such recurrences.
-/

namespace Semblance

/-- How the worth of two lists comes from the worth of their tails. -/
structure Recurrence where
  /-- The worth of the empty list and a list of the given length. -/
  edge : Nat → Nat
  /-- The worth of two non-empty lists, given whether their heads are equal and the worth of both tails, of the first
  tail with the second list, and of the first list with the second tail. -/
  step : (same : Bool) → (tails first second : Nat) → Nat

namespace Recurrence

variable {α : Type} [DecidableEq α]

/-- The worth of two lists, by recursion on both. -/
def value (r : Recurrence) : List α → List α → Nat
  | [], ys => r.edge ys.length
  | x :: xs, [] => r.edge (xs.length + 1)
  | x :: xs, y :: ys =>
    r.step (decide (x = y)) (value r xs ys) (value r xs (y :: ys)) (value r (x :: xs) ys)
  termination_by xs ys => xs.length + ys.length

theorem value_nil_left (r : Recurrence) (ys : List α) : r.value [] ys = r.edge ys.length := by
  simp [value]

theorem value_nil_right (r : Recurrence) (xs : List α) : r.value xs [] = r.edge xs.length := by
  cases xs <;> simp [value]

theorem value_cons_cons (r : Recurrence) (x y : α) (xs ys : List α) :
    r.value (x :: xs) (y :: ys) =
      r.step (decide (x = y)) (r.value xs ys) (r.value xs (y :: ys)) (r.value (x :: xs) ys) := by
  rw [value]

/-- A recurrence that treats both branches alike does not care which list comes first. -/
theorem value_comm (r : Recurrence)
    (h : ∀ same tails first second, r.step same tails first second = r.step same tails second first)
    (xs ys : List α) : r.value xs ys = r.value ys xs := by
  induction xs generalizing ys with
  | nil => rw [value_nil_left, value_nil_right]
  | cons x xs ih =>
    induction ys with
    | nil => rw [value_nil_left, value_nil_right]
    | cons y ys ih' =>
      have hsame : decide (x = y) = decide (y = x) := decide_eq_decide.2 eq_comm
      rw [value_cons_cons, value_cons_cons, hsame, ih ys, ih (y :: ys), ih', h]

/-- The rest of the row of `x`, after the entries `done` (reversed): `second` is the entry before, `tails` the entry
above it, and `above` holds the entries of the row before from there on. -/
def rowFrom (r : Recurrence) (x : α) (done : List Nat) (tails second : Nat) : List α → List Nat → List Nat
  | y :: ys, first :: above =>
    let worth := r.step (decide (x = y)) tails first second
    rowFrom r x (worth :: done) first worth ys above
  | _, _ => done.reverse

/-- The row of `x :: xs` from the row of `xs`: the entries are for the endings of the second list, the shortest
first.  `ys` is the second list from its end. -/
def nextRow (r : Recurrence) (x : α) (length : Nat) (ys : List α) : List Nat → List Nat
  | [] => []
  | tails :: above => rowFrom r x [r.edge length] tails (r.edge length) ys above

/-- The worth of two lists, computed row by row from their ends. -/
def table (r : Recurrence) (xs ys : List α) : Nat :=
  let start := (List.range (ys.length + 1)).map r.edge
  let (_, row) := xs.reverse.foldl
    (fun (length, row) x => (length + 1, nextRow r x (length + 1) ys.reverse row)) (0, start)
  row.getLastD 0

/-- The worth of `xs` and each longer ending of the second list: the ending `s` grows by the entries of `ys`, which is
the rest of the second list from its end. -/
def worths (r : Recurrence) (xs s : List α) : List α → List Nat
  | [] => []
  | y :: ys => r.value xs (y :: s) :: worths r xs (y :: s) ys

theorem rowFrom_worths (r : Recurrence) (x : α) (xs s ys : List α) (done : List Nat) :
    r.rowFrom x done (r.value xs s) (r.value (x :: xs) s) ys (r.worths xs s ys) =
      done.reverse ++ r.worths (x :: xs) s ys := by
  induction ys generalizing s done with
  | nil => simp [rowFrom, worths]
  | cons y ys ih =>
    simp only [worths, rowFrom]
    rw [← value_cons_cons, ih]
    simp

theorem nextRow_worths (r : Recurrence) (x : α) (xs ys : List α) :
    r.nextRow x (xs.length + 1) ys (r.value xs [] :: r.worths xs [] ys) =
      r.value (x :: xs) [] :: r.worths (x :: xs) [] ys := by
  have h : r.edge (xs.length + 1) = r.value (x :: xs) [] := by rw [value_nil_right]; rfl
  rw [nextRow, h, rowFrom_worths]
  simp

theorem worths_nil_left (r : Recurrence) (s ys : List α) :
    r.worths [] s ys = (List.range' (s.length + 1) ys.length).map r.edge := by
  induction ys generalizing s with
  | nil => rfl
  | cons y ys ih => simp [worths, ih, value_nil_left, List.range'_succ]

theorem getLastD_worths (r : Recurrence) (xs s ys : List α) :
    (r.value xs s :: r.worths xs s ys).getLastD 0 = r.value xs (ys.reverse ++ s) := by
  induction ys generalizing s with
  | nil => simp [worths]
  | cons y ys ih =>
    have := ih (y :: s)
    simpa [worths] using this

theorem foldl_nextRow (r : Recurrence) (xs ys : List α) :
    xs.reverse.foldl (fun (length, row) x => (length + 1, r.nextRow x (length + 1) ys row))
        (0, (List.range (ys.length + 1)).map r.edge) =
      (xs.length, r.value xs [] :: r.worths xs [] ys) := by
  induction xs with
  | nil => simp [value_nil_left, worths_nil_left, List.range_eq_range', List.range'_succ]
  | cons x xs ih =>
    rw [List.reverse_cons, List.foldl_append, ih]
    simp [nextRow_worths]

/-- The table computes the recursion. -/
theorem table_eq_value (r : Recurrence) (xs ys : List α) : r.table xs ys = r.value xs ys := by
  have h := r.foldl_nextRow xs ys.reverse
  rw [List.length_reverse] at h
  simp only [table]
  rw [h]
  simpa using r.getLastD_worths xs [] ys.reverse

end Recurrence

/-- The least number of insertions, deletions and replacements of single entries that turn one list into another. -/
def editRecurrence : Recurrence where
  edge n := n
  step same tails first second := if same then tails else 1 + min tails (min first second)

/-- The length of the longest list that is a subsequence of both. -/
def commonRecurrence : Recurrence where
  edge _ := 0
  step same tails first second := if same then tails + 1 else max first second

/-- The edit distance of two lists. -/
def editDistance {α : Type} [DecidableEq α] (xs ys : List α) : Nat :=
  editRecurrence.table xs ys

/-- The length of the longest common subsequence of two lists. -/
def commonLength {α : Type} [DecidableEq α] (xs ys : List α) : Nat :=
  commonRecurrence.table xs ys

end Semblance
