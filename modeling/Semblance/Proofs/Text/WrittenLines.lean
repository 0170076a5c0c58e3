import Mathlib.Data.List.Basic
import Semblance.Proofs.Lexing.Grammar
import Semblance.Proofs.Text.Squeeze
import Semblance.Text.Lines

/-!
# Written lines

The written lines of a text are those that are not blank.  A carriage return and the line feed after it are one break,
but to cut the text between them only adds a blank line: the written lines of a text are those of its parts
(`writtenLines_append_cons`).  So each written line can be found at its place in the text (`exists_place`).
-/

namespace Semblance.Text

/-- The lines of a text that are not blank, without white space at their ends. -/
def writtenLines (s : List Char) : List (List Char) :=
  ((lines s).map trim).filter (!·.isEmpty)

/-! ### Parts between breaks -/

private theorem modifyHead_nil_append (ls : List (List Char)) : ls.modifyHead ([] ++ ·) = ls := by
  cases ls <;> rfl

/-- Lines and parts between breaks differ in blank ones only. -/
private theorem filter_linesFrom (done : List (List Char)) (current s : List Char) :
    ((linesFrom done current s).map trim).filter (!·.isEmpty) =
      ((done.reverse ++ (s.splitOnP isBreak).modifyHead (current.reverse ++ ·)).map trim).filter (!·.isEmpty) := by
  have htrim : trim [] = [] := rfl
  fun_induction linesFrom done current s with
  | case1 done current h =>
    obtain rfl : current = [] := List.isEmpty_iff.1 h
    simp [htrim]
  | case2 done current h => simp
  | case3 done current rest ih =>
    have hreturn : isBreak '\r' := by decide
    have hfeed : isBreak '\n' := by decide
    rw [ih, List.reverse_nil, modifyHead_nil_append]
    simp [List.splitOnP_cons_eq_if_modifyHead, hreturn, hfeed, htrim, List.filter_cons]
  | case4 done current c rest hcr hc ih =>
    rw [ih, List.reverse_nil, modifyHead_nil_append]
    simp [List.splitOnP_cons_eq_if_modifyHead, hc]
  | case5 done current c rest hcr hc ih =>
    rw [ih]
    simp [List.splitOnP_cons_eq_if_modifyHead, hc, List.modifyHead_modifyHead, Function.comp_def]

private theorem writtenLines_eq (s : List Char) :
    writtenLines s = ((s.splitOnP isBreak).map trim).filter (!·.isEmpty) := by
  rw [writtenLines, lines, filter_linesFrom, List.reverse_nil, List.reverse_nil, modifyHead_nil_append, List.nil_append]

theorem writtenLines_append_cons {d : Char} (hd : isBreak d) (a b : List Char) :
    writtenLines (a ++ d :: b) = writtenLines a ++ writtenLines b := by
  simp [writtenLines_eq, List.splitOnP_append_cons a b hd]

theorem writtenLines_append {a : List Char} (ha : ∀ d ∈ a.getLast?, isBreak d) (b : List Char) :
    writtenLines (a ++ b) = writtenLines a ++ writtenLines b := by
  rcases List.eq_nil_or_concat a with rfl | ⟨a, d, rfl⟩
  · rfl
  · have hd : isBreak d := ha d (by simp)
    rw [List.concat_eq_append, List.append_assoc, List.singleton_append, writtenLines_append_cons hd,
      writtenLines_append_cons hd]
    simp [writtenLines]

theorem writtenLines_append_of_head? (a : List Char) {b : List Char} (hb : ∀ d ∈ b.head?, isBreak d) :
    writtenLines (a ++ b) = writtenLines a ++ writtenLines b := by
  cases b with
  | nil => simp [writtenLines]
  | cons d b =>
    have hd : isBreak d := hb d rfl
    rw [writtenLines_append_cons hd, ← List.nil_append (d :: b), writtenLines_append_cons hd]
    rfl

/-- A text without a break is one line, which can be blank. -/
theorem writtenLines_of_not_break {p : List Char} (h : ∀ c ∈ p, isBreak c = false) :
    writtenLines p = [trim p].filter (!·.isEmpty) := by
  rw [writtenLines_eq, List.splitOnP_eq_singleton h, List.map_singleton]

/-! ### The place of a line -/

theorem trim_append_cons {w : List Char} (hw : ∀ c ∈ w, isBlank c) {x : Char} (hx : isBlank x = false) (y : List Char) :
    trim (w ++ x :: y) = x :: y.rdropWhile isBlank := by
  have hfront : (w ++ x :: y).dropWhile isBlank = x :: y := by
    rw [List.dropWhile_append_of_pos hw, List.dropWhile_cons_of_neg (by simp [hx])]
  rw [trim, hfront, ← rdropWhile_cons_of_solid hx]
  rfl

theorem trim_of_isBlank {w : List Char} (hw : ∀ c ∈ w, isBlank c) : trim w = [] := by
  simp [trim, List.dropWhile_eq_nil_iff.2 hw]

theorem isBreak_of_head?_dropWhile {s : List Char} {d : Char} (hd : d ∈ (s.dropWhile (!isBreak ·)).head?) :
    isBreak d := by
  have hnot := List.head?_dropWhile_not (!isBreak ·) s
  simpa [Option.mem_def.1 hd] using hnot

/-- A line with something written on it, and the lines after it. -/
theorem writtenLines_cons_of_solid {w : List Char} (hw : ∀ c ∈ w, isBlank c) (hline : ∀ c ∈ w, isBreak c = false)
    {x : Char} (hx : isBlank x = false) (s : List Char) :
    writtenLines (w ++ x :: s) =
      (x :: (s.takeWhile (!isBreak ·)).rdropWhile isBlank) :: writtenLines (s.dropWhile (!isBreak ·)) := by
  have hsolid : isBreak x = false := by
    rw [← Bool.not_eq_true] at hx ⊢
    exact fun h => hx (isBlank_of_isBreak h)
  have hpart : ∀ c ∈ w ++ x :: s.takeWhile (!isBreak ·), isBreak c = false := by
    intro c hc
    rcases List.mem_append.1 hc with hc | hc
    · exact hline c hc
    · rcases List.mem_cons.1 hc with rfl | hc
      · exact hsolid
      · simpa using List.mem_takeWhile_imp hc
  conv_lhs =>
    rw [← List.takeWhile_append_dropWhile (p := (!isBreak ·)) (l := s), ← List.cons_append, ← List.append_assoc]
  rw [writtenLines_append_of_head? _ fun _ => isBreak_of_head?_dropWhile, writtenLines_of_not_break hpart,
    trim_append_cons hw hx]
  rfl

/-- The place of a written line in a text: what comes before the line, the white space at its start, its first
character other than white space, the rest of it, and what comes after it. -/
structure LinePlace (s : List Char) where
  front : List Char
  margin : List Char
  head : Char
  more : List Char
  rest : List Char
  text_eq : s = front ++ (margin ++ head :: (more ++ rest))
  front_ends : ∀ d ∈ front.getLast?, isBreak d
  margin_blank : ∀ c ∈ margin, isBlank c
  margin_line : ∀ c ∈ margin, isBreak c = false
  head_solid : isBlank head = false
  more_line : ∀ c ∈ more, isBreak c = false
  rest_starts : ∀ d ∈ rest.head?, isBreak d

namespace LinePlace

/-- The written line itself. -/
def line {s : List Char} (p : LinePlace s) : List Char :=
  p.head :: p.more.rdropWhile isBlank

/-- A place in what comes after a break. -/
def after {s : List Char} (p : LinePlace s) (part : List Char) {d : Char} (hd : isBreak d) :
    LinePlace (part ++ d :: s) where
  front := part ++ d :: p.front
  margin := p.margin
  head := p.head
  more := p.more
  rest := p.rest
  text_eq := by simp [← p.text_eq]
  front_ends := by
    cases hlast : p.front.getLast? with
    | none => simpa [List.getLast?_append, List.getLast?_cons, hlast] using hd
    | some e => simpa [List.getLast?_append, List.getLast?_cons, hlast] using p.front_ends e hlast
  margin_blank := p.margin_blank
  margin_line := p.margin_line
  head_solid := p.head_solid
  more_line := p.more_line
  rest_starts := p.rest_starts

theorem writtenLines_from {s : List Char} (p : LinePlace s) :
    writtenLines (p.margin ++ p.head :: (p.more ++ p.rest)) = p.line :: writtenLines p.rest := by
  have hmore : ∀ c ∈ p.more, !isBreak c := by simpa using p.more_line
  have hrest : ∀ d ∈ p.rest.head?, ¬ (!isBreak d) := by simpa using p.rest_starts
  have htake : (p.more ++ p.rest).takeWhile (!isBreak ·) = p.more := Lexeme.takeWhile_append_of_head? hmore hrest
  have hdrop : (p.more ++ p.rest).dropWhile (!isBreak ·) = p.rest := by
    have hsplit := List.takeWhile_append_dropWhile (p := (!isBreak ·)) (l := p.more ++ p.rest)
    rw [htake] at hsplit
    exact List.append_cancel_left hsplit
  rw [writtenLines_cons_of_solid p.margin_blank p.margin_line p.head_solid, htake, hdrop]
  rfl

theorem writtenLines_eq {s : List Char} (p : LinePlace s) :
    writtenLines s = writtenLines p.front ++ p.line :: writtenLines p.rest := by
  conv_lhs => rw [p.text_eq]
  rw [writtenLines_append p.front_ends, p.writtenLines_from]

theorem line_mem {s : List Char} (p : LinePlace s) : p.line ∈ writtenLines s := by
  rw [p.writtenLines_eq]
  exact List.mem_append_right _ (.head _)

theorem line_isPrefix {s : List Char} (p : LinePlace s) : p.line <+: p.head :: (p.more ++ p.rest) :=
  List.cons_prefix_cons.2 ⟨rfl, (List.rdropWhile_prefix ..).trans (List.prefix_append ..)⟩

/-- What stands before a written line on its line is its margin. -/
theorem rtakeWhile_margin {s : List Char} (p : LinePlace s) :
    (p.front ++ p.margin).rtakeWhile (!isBreak ·) = p.margin := by
  have hmargin : ∀ c ∈ p.margin.reverse, !isBreak c := by simpa using p.margin_line
  have hfront : ∀ d ∈ p.front.reverse.head?, ¬ (!isBreak d) := by simpa using p.front_ends
  rw [List.rtakeWhile, List.reverse_append, Lexeme.takeWhile_append_of_head? hmargin hfront, List.reverse_reverse]

/-- The first character of a line is the first of a piece of the text, or the piece began in a line before. -/
theorem begins_or_begun {s : List Char} (p : LinePlace s) {before front : List Char}
    (h : p.front ++ p.margin = before ++ front) (hfront : ∀ c ∈ front.head?, isBlank c = false) :
    front = [] ∨
      ∃ init d, isBreak d ∧ front = init ++ d :: p.margin ∧ p.front = before ++ (init ++ [d]) := by
  refine or_iff_not_imp_left.2 fun hne => ?_
  obtain ⟨c, more, rfl⟩ := List.exists_cons_of_ne_nil hne
  have hc : isBlank c = false := hfront c rfl
  have hmargin : c ∉ p.margin := fun hmem => by simp [p.margin_blank c hmem] at hc
  rcases List.append_eq_append_iff.1 h with ⟨w, -, hw⟩ | ⟨begun, hbefore, hbegun⟩
  · exact absurd (by simp [hw]) hmargin
  · rcases List.eq_nil_or_concat begun with rfl | ⟨init, d, rfl⟩
    · have hw : p.margin = c :: more := hbegun.symm
      exact absurd (by simp [hw]) hmargin
    · rw [List.concat_eq_append] at hbefore hbegun
      refine ⟨init, d, p.front_ends d (by simp [hbefore]), ?_, hbefore⟩
      rw [hbegun, List.append_assoc, List.singleton_append]

end LinePlace

/-- A character that is the first on its line other than white space begins a written line. -/
theorem exists_linePlace {s a w y : List Char} {x : Char} (hs : s = a ++ (w ++ x :: y))
    (ha : ∀ d ∈ a.getLast?, isBreak d) (hw : ∀ c ∈ w, isBlank c) (hline : ∀ c ∈ w, isBreak c = false)
    (hx : isBlank x = false) :
    ∃ p : LinePlace s, p.front = a ∧ p.margin = w ∧ p.head = x ∧ p.more ++ p.rest = y := by
  refine ⟨⟨a, w, x, y.takeWhile (!isBreak ·), y.dropWhile (!isBreak ·), ?_, ha, hw, hline, hx, fun c hc => ?_,
    fun _ hd => isBreak_of_head?_dropWhile hd⟩, rfl, rfl, rfl, List.takeWhile_append_dropWhile⟩
  · rw [hs, List.takeWhile_append_dropWhile]
  · simpa using List.mem_takeWhile_imp hc

theorem exists_linePlace_of_rtakeWhile {s b y : List Char} {x : Char} (hs : s = b ++ x :: y)
    (hb : ∀ c ∈ b.rtakeWhile (!isBreak ·), isBlank c) (hx : isBlank x = false) :
    ∃ p : LinePlace s, p.head = x ∧ p.more ++ p.rest = y := by
  have hfront : ∀ d ∈ (b.rdropWhile (!isBreak ·)).getLast?, isBreak d := by
    intro d hd
    obtain ⟨hne, rfl⟩ := List.mem_getLast?_eq_getLast hd
    simpa using List.rdropWhile_last_not (!isBreak ·) b hne
  have hline : ∀ c ∈ b.rtakeWhile (!isBreak ·), isBreak c = false := fun c hc => by
    simpa using List.mem_rtakeWhile_imp hc
  have hsplit : s = b.rdropWhile (!isBreak ·) ++ (b.rtakeWhile (!isBreak ·) ++ x :: y) := by
    rw [hs, ← List.append_assoc, List.rdropWhile_append_rtakeWhile]
  obtain ⟨p, -, -, hhead, hmore⟩ := exists_linePlace hsplit hfront hb hline hx
  exact ⟨p, hhead, hmore⟩

/-- A part between breaks that is not blank is a line at its place. -/
private theorem exists_place_of_not_break {part rest : List Char} (hpart : ∀ c ∈ part, isBreak c = false)
    (hrest : ∀ d ∈ rest.head?, isBreak d) {before after : List (List Char)} {line : List Char}
    (h : writtenLines part = before ++ line :: after) :
    ∃ p : LinePlace (part ++ rest), writtenLines p.front = before ∧ p.line = line := by
  obtain ⟨w, q, rfl, -, hw, hq⟩ := Lexeme.exists_run isBlank part
  rw [writtenLines_of_not_break hpart] at h
  cases q with
  | nil =>
    rw [List.append_nil, trim_of_isBlank hw] at h
    simp at h
  | cons x y =>
    have hx : isBlank x = false := by simpa using hq x (by simp)
    rw [trim_append_cons hw hx] at h
    obtain ⟨rfl, rfl, -⟩ : before = [] ∧ line = x :: y.rdropWhile isBlank ∧ after = [] := by
      simpa [List.append_eq_singleton_iff] using h.symm
    have hmargin : ∀ c ∈ w, isBreak c = false := fun c hc => hpart c (by simp [hc])
    have hmore : ∀ c ∈ y, isBreak c = false := fun c hc => hpart c (by simp [hc])
    exact ⟨⟨[], w, x, y, rest, by simp, by simp, hw, hmargin, hx, hmore, hrest⟩, rfl, rfl⟩

/-- A text has no break, or a part before its first break and a text after it. -/
theorem induction_on_parts {motive : List Char → Prop}
    (last : ∀ part : List Char, (∀ c ∈ part, isBreak c = false) → motive part)
    (cut : ∀ (part : List Char) (d : Char) (s : List Char), (∀ c ∈ part, isBreak c = false) → isBreak d →
      motive s → motive (part ++ d :: s)) : (s : List Char) → motive s := by
  intro s
  obtain ⟨part, rest, hs, -, hin, hout⟩ := Lexeme.exists_run (!isBreak ·) s
  have hpart : ∀ c ∈ part, isBreak c = false := by simpa using hin
  cases rest with
  | nil =>
    rw [hs, List.append_nil]
    exact last part hpart
  | cons d t =>
    have hd : isBreak d := by simpa using hout d (by simp)
    rw [hs]
    exact cut part d t hpart hd (induction_on_parts last cut t)
  termination_by s => s.length
  decreasing_by simp only [hs, List.length_append, List.length_cons]; omega

/-- Each written line has a place, with the written lines before it in what comes before. -/
theorem exists_place {s : List Char} {before after : List (List Char)} {line : List Char}
    (h : writtenLines s = before ++ line :: after) :
    ∃ p : LinePlace s, writtenLines p.front = before ∧ p.line = line := by
  induction s using induction_on_parts generalizing before with
  | last part hpart =>
    have hplace : ∃ p : LinePlace (part ++ []), writtenLines p.front = before ∧ p.line = line :=
      exists_place_of_not_break hpart (by simp) h
    rwa [List.append_nil] at hplace
  | cut part d s hpart hd ih =>
    rw [writtenLines_append_cons hd] at h
    rcases List.append_eq_append_iff.1 h with ⟨lines, rfl, hs⟩ | ⟨_ | ⟨line', more⟩, hp, hs⟩
    · obtain ⟨p, hfront, hline⟩ := ih hs
      have hcut := writtenLines_append_cons hd part p.front
      rw [hfront] at hcut
      exact ⟨p.after part hd, hcut, hline⟩
    · obtain ⟨p, hfront, hline⟩ := ih (hs.symm.trans (List.nil_append _).symm)
      have hcut := writtenLines_append_cons hd part p.front
      rw [hfront, hp, List.append_nil, List.append_nil] at hcut
      exact ⟨p.after part hd, hcut, hline⟩
    · obtain ⟨rfl, -⟩ : line = line' ∧ _ := by simpa using hs
      exact exists_place_of_not_break hpart (by simpa using hd) hp

theorem infix_of_mem_writtenLines {s line : List Char} (h : line ∈ writtenLines s) : line <:+: s := by
  obtain ⟨before, after, hs⟩ := List.append_of_mem h
  obtain ⟨p, -, rfl⟩ := exists_place hs
  have htext := p.line_isPrefix.isInfix.trans (List.suffix_append (p.front ++ p.margin) _).isInfix
  rwa [List.append_assoc, ← p.text_eq] at htext

private theorem writtenLines_eq_nil_iff_of_not_break {part : List Char} (h : ∀ c ∈ part, isBreak c = false) :
    writtenLines part = [] ↔ ∀ c ∈ part, isBlank c := by
  obtain ⟨w, q, rfl, -, hw, hq⟩ := Lexeme.exists_run isBlank part
  cases q with
  | nil =>
    rw [List.append_nil] at h ⊢
    simpa [writtenLines_of_not_break h, trim_of_isBlank hw] using hw
  | cons x y =>
    have hx : isBlank x = false := by simpa using hq x (by simp)
    rw [writtenLines_cons_of_solid hw (fun c hc => h c (by simp [hc])) hx]
    simp only [List.cons_ne_nil, false_iff]
    intro hall
    have hblank : isBlank x := hall x (by simp)
    simp [hx] at hblank

/-- A text has no written line exactly if it is blank. -/
theorem writtenLines_eq_nil_iff {s : List Char} : writtenLines s = [] ↔ ∀ c ∈ s, isBlank c := by
  induction s using induction_on_parts with
  | last part hpart => exact writtenLines_eq_nil_iff_of_not_break hpart
  | cut part d s hpart hd ih =>
    have hblank : isBlank d := isBlank_of_isBreak hd
    simp [writtenLines_append_cons hd, writtenLines_eq_nil_iff_of_not_break hpart, ih, hblank, or_imp, forall_and]

end Semblance.Text
