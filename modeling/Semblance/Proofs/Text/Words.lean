import Semblance.Proofs.Lexing.Grammar
import Semblance.Proofs.Text.Squeeze
import Semblance.Text.Lines

/-!
# Words and lines

`HasWords` and `HasLines` say what the words and the lines of a text are, without the functions that find them.  A word
has no white space in it and white space or an end of the text on either side; a line runs to a break, and a carriage
return with the line feed after it is one break.  A normalized text has the words of the text with one space between
them (`toList_normalize`), and `lines` gives the lines (`hasLines_iff`).
-/

namespace Semblance.Text

/-! ### Words -/

/-- The words of a text, in order. -/
inductive HasWords : List Char → List (List Char) → Prop
  | blank {run : List Char} (hrun : ∀ c ∈ run, isBlank c) : HasWords run []
  | word {run word rest : List Char} {words : List (List Char)} (hrun : ∀ c ∈ run, isBlank c) (hne : word ≠ [])
      (hword : ∀ c ∈ word, isBlank c = false) (hrest : ∀ c ∈ rest.head?, isBlank c) (h : HasWords rest words) :
      HasWords (run ++ (word ++ rest)) (word :: words)

theorem exists_hasWords : (s : List Char) → ∃ words, HasWords s words := by
  intro s
  obtain ⟨run, t, hs, -, hrun, hfirst⟩ := Lexeme.exists_run isBlank s
  obtain ⟨word, rest, ht, -, hword, hrest⟩ := Lexeme.exists_run (!isBlank ·) t
  rw [hs, ht]
  cases word with
  | nil =>
    -- what follows the white space starts with no white space, and with no word either
    cases rest with
    | nil => exact ⟨[], by simpa using .blank hrun⟩
    | cons c rest =>
      have hc : ¬ isBlank c := hfirst c (by simp [ht])
      exact absurd (by simpa using hrest c rfl) hc
  | cons c word =>
    obtain ⟨words, h⟩ := exists_hasWords rest
    exact ⟨_, .word hrun (List.cons_ne_nil c word) (by simpa using hword) (by simpa using hrest) h⟩
  termination_by s => s.length
  decreasing_by simp only [hs, ht, List.length_append, List.length_cons]; omega

theorem normal_append_of_isBlank {run : List Char} (h : ∀ c ∈ run, isBlank c) (s : List Char) :
    normal (run ++ s) = normal s := by
  induction run with
  | nil => rfl
  | cons c run ih => rw [List.cons_append, normal_cons_of_isBlank (h c (.head _)), ih fun d hd => h d (.tail _ hd)]

theorem squeeze_append_of_solid {word : List Char} (h : ∀ c ∈ word, isBlank c = false) (s : List Char) :
    squeeze (word ++ s) = word ++ squeeze s := by
  induction word with
  | nil => rfl
  | cons c word ih =>
    rw [List.cons_append, squeeze_cons (h c (.head _)), ih fun d hd => h d (.tail _ hd), List.cons_append]

theorem normal_append_of_solid {word : List Char} (hne : word ≠ []) (h : ∀ c ∈ word, isBlank c = false)
    (s : List Char) : normal (word ++ s) = word ++ squeeze s := by
  obtain ⟨c, word, rfl⟩ := List.exists_cons_of_ne_nil hne
  rw [List.cons_append, normal_cons (h c (.head _)), squeeze_append_of_solid fun d hd => h d (.tail _ hd),
    List.cons_append]

/-- Behind white space the squeezed text has one space more than the normal form. -/
theorem squeeze_append_of_run {run : List Char} (hne : run ≠ []) (h : ∀ c ∈ run, isBlank c) {c : Char}
    (hc : isBlank c = false) (s : List Char) : squeeze (run ++ c :: s) = ' ' :: squeeze (c :: s) := by
  obtain ⟨d, run, rfl⟩ := List.exists_cons_of_ne_nil hne
  have hd : isBlank d := h d (.head _)
  rw [List.cons_append, squeeze_cons_append_of_isBlank hd fun e he => h e (.tail _ he), squeeze_cons_of_isBlank hd,
    squeeze_cons hc, spaced_cons hc]

/-- What follows a word is squeezed to nothing, or to a space and the next word on. -/
theorem HasWords.squeeze_eq {s : List Char} {words : List (List Char)} (h : HasWords s words)
    (hs : ∀ c ∈ s.head?, isBlank c) : squeeze s = if words = [] then [] else ' ' :: normal s := by
  cases h with
  | blank hrun => rw [if_pos rfl, squeeze_eq_nil_iff.2 hrun]
  | @word run word rest words hrun hne hword hrest h =>
    obtain ⟨c, word, rfl⟩ := List.exists_cons_of_ne_nil hne
    have hc : isBlank c = false := hword c (.head _)
    have hrun' : run ≠ [] := by
      rintro rfl
      have hblank : isBlank c := hs c rfl
      simp [hc] at hblank
    rw [if_neg (List.cons_ne_nil _ _), List.cons_append, squeeze_append_of_run hrun' hrun hc,
      normal_append_of_isBlank hrun, normal_cons hc, squeeze_cons hc]

theorem HasWords.normal_eq {s : List Char} {words : List (List Char)} (h : HasWords s words) :
    normal s = [' '].intercalate words := by
  induction h with
  | blank hrun => simpa using normal_eq_nil_iff.2 hrun
  | @word run word rest words hrun hne hword hrest h ih =>
    rw [normal_append_of_isBlank hrun, normal_append_of_solid hne hword, h.squeeze_eq hrest]
    cases words with
    | nil => simp
    | cons next words =>
      rw [if_neg (List.cons_ne_nil _ _), ih, List.intercalate_cons_cons, List.append_assoc, List.singleton_append]

/-- A normalized text has its words with one space between them. -/
theorem toList_normalize {text : String} {words : List (List Char)} (h : HasWords text.toList words) :
    (normalize text).toList = [' '].intercalate words := by
  rw [normalize, String.toList_ofList, trim_collapse, h.normal_eq]

/-! ### Lines -/

/-- A break between a line and the text `rest`. -/
inductive IsLineBreak : (between rest : List Char) → Prop
  | pair {rest : List Char} : IsLineBreak ['\r', '\n'] rest
  | single {c : Char} {rest : List Char} (hc : isBreak c) (hpair : c = '\r' → rest.head? ≠ some '\n') :
      IsLineBreak [c] rest

/-- The lines of a text, in order.  The last one may do without a break if it is not empty. -/
inductive HasLines : List Char → List (List Char) → Prop
  | nil : HasLines [] []
  | last {line : List Char} (h : IsLine line) : HasLines line [line]
  | line {line between rest : List Char} {ls : List (List Char)} (hline : ∀ c ∈ line, isBreak c = false)
      (hbetween : IsLineBreak between rest) (h : HasLines rest ls) : HasLines (line ++ (between ++ rest)) (line :: ls)

theorem lines_append_break {line between rest : List Char} (hline : ∀ c ∈ line, isBreak c = false)
    (h : IsLineBreak between rest) : lines (line ++ (between ++ rest)) = line :: lines rest := by
  rw [lines, linesFrom_append_of_not_break hline, List.append_nil]
  have hnext : linesFrom [] line.reverse (between ++ rest) = linesFrom [line] [] rest := by
    cases h with
    | pair => simp [linesFrom]
    | @single c _ hc hpair =>
      rw [List.singleton_append, linesFrom, if_pos hc, List.reverse_reverse]
      rintro more rfl rfl
      exact hpair rfl rfl
  rw [hnext, ← List.nil_append [line], linesFrom_append]
  rfl

theorem exists_isLineBreak {c : Char} (hc : isBreak c) (s : List Char) :
    ∃ between rest, c :: s = between ++ rest ∧ IsLineBreak between rest ∧ rest.length ≤ s.length := by
  by_cases hpair : c = '\r' ∧ s.head? = some '\n'
  · obtain ⟨rfl, hs⟩ := hpair
    obtain ⟨rest, rfl⟩ := List.head?_eq_some_iff.1 hs
    exact ⟨['\r', '\n'], rest, rfl, .pair, by simp⟩
  · exact ⟨[c], s, rfl, .single hc fun hr hs => hpair ⟨hr, hs⟩, le_rfl⟩

theorem hasLines_lines : (s : List Char) → HasLines s (lines s) := by
  intro s
  obtain ⟨line, t, hs, -, hin, hout⟩ := Lexeme.exists_run (!isBreak ·) s
  have hline : ∀ c ∈ line, isBreak c = false := by simpa using hin
  rw [hs]
  cases t with
  | nil =>
    rw [List.append_nil]
    cases line with
    | nil => exact .nil
    | cons c line =>
      have hlast : IsLine (c :: line) := ⟨List.cons_ne_nil c line, hline⟩
      rw [hlast.lines_eq]
      exact .last hlast
  | cons c t =>
    obtain ⟨between, rest, ht, hbetween, hlen⟩ := exists_isLineBreak (by simpa using hout c rfl) t
    rw [ht, lines_append_break hline hbetween]
    exact .line hline hbetween (hasLines_lines rest)
  termination_by s => s.length
  decreasing_by simp only [hs, List.length_append, List.length_cons]; omega

/-- The lines of a text are those that `lines` gives. -/
theorem hasLines_iff {s : List Char} {ls : List (List Char)} : HasLines s ls ↔ lines s = ls := by
  constructor
  · intro h
    induction h with
    | nil => rfl
    | last h => exact h.lines_eq
    | line hline hbetween _ ih => rw [lines_append_break hline hbetween, ih]
  · rintro rfl
    exact hasLines_lines s

end Semblance.Text
