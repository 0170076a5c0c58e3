import Semblance.Text.Blank

/-!
# Lines

A text is cut into lines at every line break; a carriage return followed by a line feed is one break.  A break at
the very end opens no further line, so the empty text has no line at all.
-/

namespace Semblance.Text

/-- Characters that end a line: the feeds and returns of ASCII, the three file separators, the next-line control
and the two separators of Unicode. -/
def isBreak (c : Char) : Bool :=
  let n := c.toNat
  (0xA ≤ n && n ≤ 0xD) || (0x1C ≤ n && n ≤ 0x1E) || n == 0x85 || n == 0x2028 || n == 0x2029

/-- The lines of `current` (reversed) followed by the given text, after the lines `done` (reversed). -/
def linesFrom (done : List (List Char)) (current : List Char) : List Char → List (List Char)
  | [] => if current.isEmpty then done.reverse else (current.reverse :: done).reverse
  | '\r' :: '\n' :: rest => linesFrom (current.reverse :: done) [] rest
  | c :: rest =>
    if isBreak c then linesFrom (current.reverse :: done) [] rest
    else linesFrom done (c :: current) rest

/-- The lines of a text, without their breaks. -/
def lines (s : List Char) : List (List Char) :=
  linesFrom [] [] s

/-- The text with line feeds as its only returns: a return with the line feed after it, and every other return,
becomes a line feed. -/
def unifyBreaksFrom (done : List Char) : List Char → List Char
  | [] => done.reverse
  | '\r' :: '\n' :: rest => unifyBreaksFrom ('\n' :: done) rest
  | c :: rest => unifyBreaksFrom ((if c = '\r' then '\n' else c) :: done) rest

/-- Every line end that uses a carriage return, written as a line feed. -/
def unifyBreaks (s : List Char) : List Char :=
  unifyBreaksFrom [] s

theorem linesFrom_append (done extra : List (List Char)) (current s : List Char) :
    linesFrom (done ++ extra) current s = extra.reverse ++ linesFrom done current s := by
  fun_induction linesFrom done current s with
  | case1 done current h => simp [linesFrom, h]
  | case2 done current h => simp [linesFrom, h]
  | case3 done current rest ih => simpa [linesFrom] using ih
  | case4 done current c rest hcr hc ih => simpa [linesFrom, hc] using ih
  | case5 done current c rest hcr hc ih => simpa [linesFrom, hc] using ih

@[simp] theorem lines_nil : lines [] = [] := rfl

/-- Characters that end no line come to the current line. -/
theorem linesFrom_append_of_not_break {line : List Char} (h : ∀ c ∈ line, isBreak c = false)
    (done : List (List Char)) (current rest : List Char) :
    linesFrom done current (line ++ rest) = linesFrom done (line.reverse ++ current) rest := by
  induction line generalizing current with
  | nil => rfl
  | cons c line ih =>
    have hc : isBreak c = false := h c List.mem_cons_self
    have hreturn : c ≠ '\r' := by rintro rfl; exact absurd hc (by decide)
    rw [List.cons_append, linesFrom, if_neg (by simp [hc]), ih fun d hd => h d (List.mem_cons_of_mem c hd)]
    · simp
    · exact fun _ heq _ => hreturn heq

/-- A text that is one line: it is not empty and has no line break. -/
def IsLine (line : List Char) : Prop :=
  line ≠ [] ∧ ∀ c ∈ line, isBreak c = false

instance (line : List Char) : Decidable (IsLine line) :=
  decidable_of_iff (line ≠ [] ∧ line.all (!isBreak ·)) (by simp [IsLine])

theorem IsLine.lines_eq {line : List Char} (h : IsLine line) : lines line = [line] := by
  have hlines := linesFrom_append_of_not_break h.2 [] [] []
  rw [List.append_nil, List.append_nil] at hlines
  rw [lines, hlines, linesFrom, if_neg (by simpa using h.1)]
  simp

theorem lines_append_newline {line : List Char} (h : ∀ c ∈ line, isBreak c = false) (rest : List Char) :
    lines (line ++ '\n' :: rest) = line :: lines rest := by
  rw [lines, linesFrom_append_of_not_break h, linesFrom, if_pos (by decide), List.append_nil, List.reverse_reverse,
    ← List.nil_append [line], linesFrom_append]
  · rfl
  · exact fun _ heq _ => absurd heq (by decide)

/-- Lines that are joined by line feeds are found again. -/
theorem lines_intercalate {ls : List (List Char)} (h : ∀ line ∈ ls, IsLine line) :
    lines (['\n'].intercalate ls) = ls := by
  induction ls with
  | nil => rfl
  | cons line ls ih =>
    have hline := h line List.mem_cons_self
    cases ls with
    | nil => rw [List.intercalate_singleton, hline.lines_eq]
    | cons next ls =>
      rw [List.intercalate_cons_cons, List.append_assoc, List.singleton_append, lines_append_newline hline.2,
        ih fun l hl => h l (List.mem_cons_of_mem line hl)]

/-- No carriage return is left. -/
theorem return_notMem_unifyBreaks (s : List Char) : '\r' ∉ unifyBreaks s := by
  suffices h : ∀ done : List Char, '\r' ∉ done → '\r' ∉ unifyBreaksFrom done s from h [] (by simp)
  intro done h
  fun_induction unifyBreaksFrom done s with
  | case1 done => simpa using h
  | case2 done rest ih => exact ih (by simp [h])
  | case3 done c rest _ ih =>
    apply ih
    split <;> simp_all [eq_comm]

theorem isBlank_of_isBreak {c : Char} (h : isBreak c) : isBlank c := by
  simp only [isBreak, isBlank, Bool.or_eq_true, Bool.and_eq_true, decide_eq_true_eq, beq_iff_eq] at h ⊢
  omega

end Semblance.Text
