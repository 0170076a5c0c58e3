import Semblance.Proofs.Lexing.Comments
import Semblance.Proofs.Submission.CommentLines
import Semblance.Proofs.Text.WrittenLines

/-!
# Announced comments

In a text without tokens each line starts a comment or begins inside one.  The counter of comment lines sees only the
lines: it follows a comment over a line break if the comment is announced, by a line that begins with it and shows it
as an open block comment.  A line that begins inside a comment which is announced is counted
(`staysOpen_of_begun`).  One that begins inside a comment which is not announced is overlooked, unless it looks like
the start of another comment (`not_staysOpen_of_begun`).
-/

namespace Semblance

open Lexeme Text

namespace Lexeme

/-- The written lines that begin inside a lexeme. -/
def innerLines (l : Lexeme) : List (List Char) :=
  writtenLines (l.chars.dropWhile (!isBreak ·))

/-- A lexeme begins its line, after `before`, and shows there that it is a block comment and not closed: its mark is
not followed by a slash, which would look like a closing mark. -/
structure IsAnnounced (l : Lexeme) (before : List Char) : Prop where
  block : ['/', '*'] <+: l.chars
  not_closed : ¬ ['/', '*', '/'] <+: l.chars
  begins : ∀ c ∈ before.rtakeWhile (!isBreak ·), isBlank c

instance (l : Lexeme) (before : List Char) : Decidable (l.IsAnnounced before) :=
  decidable_of_iff (['/', '*'] <+: l.chars ∧ ¬ ['/', '*', '/'] <+: l.chars ∧
    (before.rtakeWhile (!isBreak ·)).all isBlank)
    ⟨fun ⟨hb, hc, hl⟩ => ⟨hb, hc, List.all_eq_true.1 hl⟩, fun h => ⟨h.block, h.not_closed, List.all_eq_true.2 h.begins⟩⟩

end Lexeme

/-- Each lexeme inside which a line begins is announced. -/
def AnnouncesComments (s : List Char) : Prop :=
  ∀ before l after, lexemes s = before ++ l :: after → l.innerLines ≠ [] → l.IsAnnounced (before.flatMap chars)

/-- No line that begins inside a lexeme starts a comment, as far as the line shows. -/
def HasPlainComments (s : List Char) : Prop :=
  ∀ l ∈ lexemes s, ∀ line ∈ l.innerLines, ¬ StartsComment line

theorem announcesComments_iff {s : List Char} :
    AnnouncesComments s ↔ ∀ i, (h : i < (lexemes s).length) → (lexemes s)[i].innerLines ≠ [] →
      (lexemes s)[i].IsAnnounced (((lexemes s).take i).flatMap chars) := by
  constructor
  · intro h i hi
    exact h _ _ ((lexemes s).drop (i + 1)) (by rw [← List.drop_eq_getElem_cons hi, List.take_append_drop])
  · intro h before l after hls
    have hl := h before.length (by simp [hls])
    simpa [hls] using hl

instance : DecidablePred AnnouncesComments :=
  fun _ => decidable_of_iff' _ announcesComments_iff

instance : DecidablePred HasPlainComments :=
  fun s => inferInstanceAs (Decidable (∀ l ∈ lexemes s, ∀ line ∈ l.innerLines, ¬ StartsComment line))

/-! ### Marks in lines -/

/-- A line that begins with the mark of a comment. -/
theorem exists_line_of_mark {s : List Char} (p : LinePlace s) {e : Char} {t : List Char}
    (h : p.head :: (p.more ++ p.rest) = '/' :: e :: t) (he : e = '/' ∨ e = '*') : ∃ y, p.line = '/' :: e :: y := by
  obtain ⟨hhead, hmore⟩ := List.cons_eq_cons.1 h
  have hsolid : isBlank e = false := by rcases he with rfl | rfl <;> decide
  cases hp : p.more with
  | nil =>
    rw [hp, List.nil_append] at hmore
    have hbreak : isBreak e := p.rest_starts e (by simp [hmore])
    exact absurd (isBlank_of_isBreak hbreak) (by simp [hsolid])
  | cons d more =>
    obtain ⟨rfl, -⟩ : d = e ∧ _ := by simpa [hp] using hmore
    exact ⟨more.rdropWhile isBlank, by rw [LinePlace.line, hhead, hp, rdropWhile_cons_of_solid hsolid]⟩

private theorem exists_close_of_not_break {part : List Char} (hpart : ∀ c ∈ part, isBreak c = false)
    (h : ['*', '/'] <:+: part) : ∃ line ∈ writtenLines part, ['*', '/'] <:+: line := by
  obtain ⟨w, q, rfl, -, hw, hq⟩ := exists_run isBlank part
  have hclose := (close_infix_append_iff hw).1 h
  cases q with
  | nil => simp at hclose
  | cons x y =>
    have hx : isBlank x = false := by simpa using hq x (by simp)
    refine ⟨trim (w ++ x :: y), by simp [writtenLines_of_not_break hpart, trim_append_cons hw hx], ?_⟩
    rw [trim_append_cons hw hx, ← rdropWhile_cons_of_solid hx]
    refine close_infix_of_append (w := (x :: y).rtakeWhile isBlank) (fun c hc => List.mem_rtakeWhile_imp hc) ?_
    rwa [List.rdropWhile_append_rtakeWhile]

/-- A closing mark stands in a written line. -/
theorem exists_close_of_infix {s : List Char} (h : ['*', '/'] <:+: s) :
    ∃ line ∈ writtenLines s, ['*', '/'] <:+: line := by
  induction s using induction_on_parts with
  | last part hpart => exact exists_close_of_not_break hpart h
  | cut part d s hpart hd ih =>
    rw [writtenLines_append_cons hd]
    by_cases hclose : ['*', '/'] <:+: part
    · obtain ⟨line, hline, hmark⟩ := exists_close_of_not_break hpart hclose
      exact ⟨line, List.mem_append_left _ hline, hmark⟩
    · have hstar : d ≠ '*' := by
        rintro rfl
        exact absurd hd (by decide)
      have hslash : d ≠ '/' := by
        rintro rfl
        exact absurd hd (by decide)
      have hs : ['*', '/'] <:+: s := by
        by_contra hs
        exact not_close_append hclose (by simp [infix_cons_iff_of_close, hstar, hs]) (by simpa using hslash) h
      obtain ⟨line, hline, hmark⟩ := ih hs
      exact ⟨line, List.mem_append_right _ hline, hmark⟩

namespace Lexeme

variable {l : Lexeme} {before front back rest : List Char}

/-- The line that begins with an announced comment has it open up to each place behind its mark. -/
theorem IsAnnounced.staysOpen (h : l.IsAnnounced before) (ht : Takes .comment l.chars rest)
    (hl : l.chars = front ++ back) (hback : back ≠ []) (hmark : 2 ≤ front.length) :
    StaysOpen (writtenLines (before ++ front)) := by
  obtain ⟨block, hblock⟩ := h.block
  obtain ⟨z, rfl⟩ : ∃ z, front = '/' :: '*' :: z := by
    rw [← hblock] at hl
    match front, hmark with
    | c :: d :: z, _ =>
      obtain ⟨rfl, rfl, -⟩ : '/' = c ∧ '*' = d ∧ _ := by simpa using hl
      exact ⟨z, rfl⟩
  have hshared : block.head? ≠ some '/' := by
    intro hhead
    obtain ⟨more, rfl⟩ := List.head?_eq_some_iff.1 hhead
    exact h.not_closed ⟨more, hblock⟩
  have hopen : ¬ ['*', '/'] <:+: '/' :: '*' :: z :=
    Takes.not_close (hblock ▸ ht) hshared (hblock.trans hl) hback
  -- the line that the comment begins
  have hsolid : isBlank '/' = false := by decide
  obtain ⟨p, hhead, hmore⟩ := exists_linePlace_of_rtakeWhile (y := '*' :: z) rfl h.begins hsolid
  have htail : p.head :: (p.more ++ p.rest) = '/' :: '*' :: z := by rw [hhead, hmore]
  refine ⟨writtenLines p.front, p.line, writtenLines p.rest, p.writtenLines_eq, ?_, fun line hline hclose => ?_⟩
  · obtain ⟨y, hline⟩ := exists_line_of_mark p htail (by simp)
    exact ⟨y, hline.symm⟩
  · rw [← p.writtenLines_from, htail] at hline
    exact hopen ((close_infix_append_iff p.margin_blank).1 (hclose.trans (infix_of_mem_writtenLines hline)))

end Lexeme

/-! ### Lines that begin inside a comment -/

/-- A line begins inside a lexeme: behind `front` there is a break, and then white space up to its first character. -/
structure Lexeme.BeginsLine (l : Lexeme) (front : List Char) (d : Char) (w : List Char) (x : Char)
    (back : List Char) : Prop where
  chars_eq : l.chars = front ++ d :: (w ++ x :: back)
  breaks : isBreak d
  blank : ∀ c ∈ w, isBlank c
  on_line : ∀ c ∈ w, isBreak c = false
  solid : isBlank x = false

section BeginsLine

variable {s : List Char} {before after : List Lexeme} {l : Lexeme} {front w back rest : List Char} {d x : Char}

private theorem exists_dropWhile_eq {p : Char → Bool} (hd : p d = false) (a b : List Char) :
    ∃ a', (a ++ d :: b).dropWhile p = a' ++ d :: b := by
  rw [List.dropWhile_append]
  split
  · exact ⟨[], by simp [hd]⟩
  · exact ⟨_, rfl⟩

theorem Lexeme.BeginsLine.exists_linePlace (h : l.BeginsLine front d w x back) :
    ∃ p : LinePlace (l.chars.dropWhile (!isBreak ·)), p.head = x ∧ p.more ++ p.rest = back := by
  have hstop : (!isBreak d) = false := by simp [h.breaks]
  obtain ⟨front', hdrop⟩ := exists_dropWhile_eq (p := (!isBreak ·)) hstop front (w ++ x :: back)
  have htext : l.chars.dropWhile (!isBreak ·) = (front' ++ [d]) ++ (w ++ x :: back) := by
    rw [h.chars_eq, hdrop, List.append_assoc, List.singleton_append]
  obtain ⟨p, -, -, hhead, hmore⟩ := Text.exists_linePlace htext (by simpa using h.breaks) h.blank h.on_line h.solid
  exact ⟨p, hhead, hmore⟩

theorem exists_beginsLine (h : l.innerLines ≠ []) : ∃ front d w x back, l.BeginsLine front d w x back := by
  obtain ⟨line, lines, hlines⟩ := List.exists_cons_of_ne_nil h
  obtain ⟨p, -, -⟩ := exists_place (hlines.trans (List.nil_append _).symm)
  have htext := p.text_eq
  rcases List.eq_nil_or_concat p.front with hnil | ⟨init, d, hfront⟩
  · -- the first character of the text from the first break on is a break
    rw [hnil, List.nil_append] at htext
    have hbreak : ∀ d ∈ (p.margin ++ p.head :: (p.more ++ p.rest)).head?, isBreak d :=
      htext ▸ fun _ => isBreak_of_head?_dropWhile
    cases hmargin : p.margin with
    | nil =>
      have hblank := isBlank_of_isBreak (hbreak p.head (by simp [hmargin]))
      exact absurd hblank (by simp [p.head_solid])
    | cons c w => exact absurd (hbreak c (by simp [hmargin])) (by simp [p.margin_line c (by simp [hmargin])])
  · have hd : isBreak d := p.front_ends d (by simp [hfront])
    refine ⟨l.chars.takeWhile (!isBreak ·) ++ init, d, p.margin, p.head, p.more ++ p.rest, ?_, hd, p.margin_blank,
      p.margin_line, p.head_solid⟩
    rw [hfront, List.concat_eq_append, List.append_assoc, List.singleton_append] at htext
    rw [List.append_assoc, ← htext, List.takeWhile_append_dropWhile]

/-- A comment that ends in a slash, which begins a line inside it, is followed by nothing that makes it a mark. -/
theorem Lexeme.BeginsLine.head?_of_takes (h : l.BeginsLine front d w '/' []) (ht : Takes .comment l.chars rest) :
    ∀ e ∈ rest.head?, e ≠ '/' ∧ e ≠ '*' := by
  have hchars := h.chars_eq
  generalize l.chars = piece at hchars ht
  cases ht with
  | lineComment _ hr =>
    intro e he
    rw [hr e he]
    decide
  | @blockComment block =>
    have hlast : ('/' :: '*' :: (block ++ ['*'])) ++ ['/'] = (front ++ d :: w) ++ ['/'] := by simpa using hchars
    have hstar : (front ++ d :: w).getLast? = some '*' := by
      rw [← List.append_cancel_right hlast, ← List.cons_append, ← List.cons_append, List.getLast?_concat]
    -- the asterisk before the slash would be the break or white space after it
    have hblank : isBlank '*' := by
      cases hwlast : w.getLast? with
      | none =>
        obtain rfl : d = '*' := by simpa [List.getLast?_append, List.getLast?_cons, hwlast] using hstar
        exact isBlank_of_isBreak h.breaks
      | some c =>
        obtain rfl : c = '*' := by simpa [List.getLast?_append, List.getLast?_cons, hwlast] using hstar
        exact h.blank '*' (List.mem_of_getLast? hwlast)
    exact absurd hblank (by decide)
  | openComment => simp

/-- In a text with plain comments, a line that begins inside a comment begins with no mark. -/
theorem HasPlainComments.ne_mark (h : HasPlainComments s) (hls : lexemes s = before ++ l :: after)
    (ht : Takes .comment l.chars (after.flatMap chars)) (hline : l.BeginsLine front d w x back) {e : Char}
    {t : List Char} (he : e = '/' ∨ e = '*') : x :: (back ++ after.flatMap chars) ≠ '/' :: e :: t := by
  intro heq
  obtain ⟨rfl, hback⟩ := List.cons_eq_cons.1 heq
  cases back with
  | nil =>
    have hne := hline.head?_of_takes ht e (by rw [← List.nil_append (after.flatMap chars), hback]; rfl)
    rcases he with rfl | rfl
    · exact hne.1 rfl
    · exact hne.2 rfl
  | cons c back =>
    obtain ⟨rfl, -⟩ := List.cons_eq_cons.1 hback
    obtain ⟨p, hhead, hmore⟩ := hline.exists_linePlace
    obtain ⟨y, hy⟩ := exists_line_of_mark p (by rw [hhead, hmore]) he
    exact h l (by simp [hls]) p.line p.line_mem (startsComment_iff.2 ⟨_, y, hy, he⟩)

/-- A line that begins inside a comment which is announced has this comment open. -/
theorem staysOpen_of_begun (h : AnnouncesComments s) (hls : lexemes s = before ++ l :: after)
    (ht : Takes .comment l.chars (after.flatMap chars)) (hline : l.BeginsLine front d w x back) :
    StaysOpen (writtenLines (before.flatMap chars ++ (front ++ [d]))) := by
  obtain ⟨p, -⟩ := hline.exists_linePlace
  have hannounced := h before l after hls (List.ne_nil_of_mem p.line_mem)
  have hfront : front ≠ [] := by
    rintro rfl
    obtain ⟨e, t, hchars, -⟩ := ht.exists_mark
    obtain ⟨rfl, -⟩ : d = '/' ∧ _ := by simpa using hline.chars_eq.symm.trans hchars
    exact absurd hline.breaks (by decide)
  have hlength := List.length_pos_of_ne_nil hfront
  have hchars : l.chars = (front ++ [d]) ++ (w ++ x :: back) := by
    rw [hline.chars_eq, List.append_assoc, List.singleton_append]
  refine hannounced.staysOpen ht hchars (by simp) ?_
  rw [List.length_append, List.length_singleton]
  omega

/-- A comment is announced if the line that it begins goes on in it and shows no closing mark. -/
theorem isAnnounced_of_line {before z more : List Char} (hl : l.chars = '/' :: '*' :: (z ++ more)) (hz : z ≠ [])
    (hnone : ¬ ['*', '/'] <:+: '/' :: '*' :: z) (hbegins : ∀ c ∈ before.rtakeWhile (!isBreak ·), isBlank c) :
    l.IsAnnounced before := by
  refine ⟨⟨z ++ more, hl.symm⟩, ?_, hbegins⟩
  rw [hl]
  obtain ⟨c, z, rfl⟩ := List.exists_cons_of_ne_nil hz
  rintro ⟨t, ht⟩
  obtain ⟨rfl, -⟩ : '/' = c ∧ _ := by simpa using ht
  exact hnone ⟨['/'], z, rfl⟩

/-- A line that shows the mark of a block comment and begins in an earlier lexeme shows the closing mark, too. -/
theorem close_infix_of_earlier (hs : tokens s = []) (h : HasPlainComments s) (hls : lexemes s = before ++ l :: after)
    {u z begun : List Char} (q : LinePlace u)
    (hbefore : before.flatMap chars = (q.front ++ q.margin) ++ '/' :: begun) (hz : '*' :: z = begun ++ front)
    (hl : l.chars = front ++ back) : ['*', '/'] <:+: '/' :: '*' :: z := by
  obtain ⟨earlier, m, between, first, more, rfl, hm, hfront, rfl⟩ := exists_lexeme_of_flatMap hbefore
  rw [List.append_assoc, List.cons_append] at hls
  have ht := takes_of_tokens_eq_nil hs hls (x := '/') (by simp [hm]) (by decide)
  rcases q.begins_or_begun hfront (ht.isBlank_head? hm) with rfl | ⟨init, d, hd, rfl, -⟩
  · -- the lexeme begins with the line, and it is closed since another one follows
    obtain ⟨e, t, hmark, -⟩ := ht.exists_mark
    obtain rfl : more = e :: t := (List.cons_eq_cons.1 (hm.symm.trans hmark)).2
    obtain ⟨rfl, hz⟩ := List.cons_eq_cons.1 hz
    rw [hmark] at ht
    have hclose := ht.close_infix (by simp [chars])
    refine hclose.trans ?_
    rw [hz, List.append_assoc]
    exact (List.prefix_append ('/' :: '*' :: t) _).isInfix
  · -- the lexeme began before the line
    rw [List.append_assoc, List.cons_append] at hm
    have hmark : more ++ (between ++ l :: after).flatMap chars = '*' :: (z ++ (back ++ after.flatMap chars)) := by
      rw [List.flatMap_append, List.flatMap_cons, hl, ← List.cons_append, hz]
      simp
    exact absurd (congrArg _ hmark) (h.ne_mark hls ht ⟨hm, hd, q.margin_blank, q.margin_line, by decide⟩ (.inr rfl))

/-- In a text with plain comments, a line that begins inside a comment which is not announced has no comment open. -/
theorem not_staysOpen_of_begun (hs : tokens s = []) (h : HasPlainComments s) (hls : lexemes s = before ++ l :: after)
    (ht : Takes .comment l.chars (after.flatMap chars)) (hann : ¬ l.IsAnnounced (before.flatMap chars))
    (hl : l.chars = front ++ d :: back) (hd : isBreak d) :
    ¬ StaysOpen (writtenLines (before.flatMap chars ++ (front ++ [d]))) := by
  rintro ⟨lines, line, later, hopen, hstart, hclose⟩
  obtain ⟨q, hfront, rfl⟩ := exists_place hopen
  have hlater : q.line :: writtenLines q.rest = q.line :: later := by
    have heq := q.writtenLines_eq.symm.trans hopen
    rw [hfront] at heq
    exact List.append_cancel_left heq
  obtain ⟨z, hz⟩ : ∃ z, q.head :: (q.more ++ q.rest) = '/' :: '*' :: z := by
    obtain ⟨z, hz⟩ := hstart.trans q.line_isPrefix
    exact ⟨z, hz.symm⟩
  have hnone : ¬ ['*', '/'] <:+: '/' :: '*' :: z := by
    intro hmark
    obtain ⟨line, hline, hmark⟩ := exists_close_of_infix ((close_infix_append_iff q.margin_blank).2 hmark)
    rw [← hz, q.writtenLines_from, hlater] at hline
    exact hclose line hline hmark
  have htext : before.flatMap chars ++ (front ++ [d]) = (q.front ++ q.margin) ++ '/' :: '*' :: z := by
    rw [← hz, List.append_assoc]
    exact q.text_eq
  have hchars : l.chars = (front ++ [d]) ++ back := by rw [hl, List.append_assoc, List.singleton_append]
  -- the line does not begin with the comment, which would be announced then
  have hother : ¬ (q.front ++ q.margin = before.flatMap chars ∧ front ++ [d] = '/' :: '*' :: z) := by
    rintro ⟨hbefore, hline⟩
    have hl : l.chars = '/' :: '*' :: (z ++ back) := by rw [hchars, hline]; rfl
    refine hann (isAnnounced_of_line hl ?_ hnone ?_)
    · rintro rfl
      obtain ⟨-, hstar⟩ := List.append_inj' (show front ++ [d] = ['/'] ++ ['*'] from hline) rfl
      obtain rfl : d = '*' := List.singleton_inj.1 hstar
      exact absurd hd (by decide)
    · rw [← hbefore, q.rtakeWhile_margin]
      exact q.margin_blank
  rcases List.append_eq_append_iff.1 htext with ⟨begun, hbefore, hbegun⟩ | ⟨begun, hbefore, hbegun⟩
  · -- the line begins in the comment
    have hl' : l.chars = begun ++ '/' :: '*' :: (z ++ back) := by rw [hchars, hbegun, List.append_assoc]; rfl
    rcases q.begins_or_begun hbefore (ht.isBlank_head? hl') with rfl | ⟨init, d', hd', rfl, -⟩
    · exact hother ⟨by simpa using hbefore, hbegun⟩
    · rw [List.append_assoc, List.cons_append] at hl'
      exact h.ne_mark hls ht ⟨hl', hd', q.margin_blank, q.margin_line, by decide⟩ (.inr rfl) rfl
  · -- the line begins before the comment
    cases begun with
    | nil => exact hother ⟨by simpa using hbefore.symm, hbegun.symm⟩
    | cons c begun =>
      obtain ⟨rfl, hz⟩ := List.cons_eq_cons.1 hbegun
      exact hnone (close_infix_of_earlier hs h hls q hbefore hz hchars)

/-! ### Overlooked lines -/

/-- If all comments are announced, then each line starts a comment or has one open before it. -/
theorem startsComment_or_staysOpen (hs : tokens s = []) (h : AnnouncesComments s) (p : LinePlace s) :
    StartsComment p.line ∨ StaysOpen (writtenLines p.front) := by
  have htext := (flatMap_chars_lexemes s).trans p.text_eq
  rw [← List.append_assoc] at htext
  obtain ⟨before, l, after, front, back, hls, hl, hbefore, hafter⟩ := exists_lexeme_of_flatMap htext
  have ht := takes_of_tokens_eq_nil hs hls (x := p.head) (by simp [hl]) p.head_solid
  rcases p.begins_or_begun hbefore (ht.isBlank_head? hl) with rfl | ⟨init, d, hd, rfl, hfront⟩
  · -- the line begins with the comment
    left
    obtain ⟨e, t, hchars, he⟩ := ht.exists_mark
    have hline : p.head :: (p.more ++ p.rest) = '/' :: e :: (t ++ after.flatMap chars) := by
      rw [hafter, ← List.cons_append, ← List.nil_append (p.head :: back), ← hl, hchars]
      rfl
    obtain ⟨y, hy⟩ := exists_line_of_mark p hline he
    exact startsComment_iff.2 ⟨e, y, hy, he⟩
  · -- the comment began in a line before
    right
    rw [List.append_assoc, List.cons_append] at hl
    rw [hfront]
    exact staysOpen_of_begun h hls ht ⟨hl, hd, p.margin_blank, p.margin_line, p.head_solid⟩

theorem overlooked_eq_zero (hs : tokens s = []) (h : AnnouncesComments s) : overlooked (writtenLines s) = 0 := by
  rw [overlooked_eq_zero_iff]
  intro before line after hlines
  obtain ⟨p, rfl, rfl⟩ := exists_place hlines
  exact startsComment_or_staysOpen hs h p

/-- If comments are plain and no line is overlooked, then all comments are announced. -/
theorem announcesComments_of_overlooked (hs : tokens s = []) (h : HasPlainComments s)
    (hzero : overlooked (writtenLines s) = 0) : AnnouncesComments s := by
  intro before l after hls hinner
  by_contra hann
  obtain ⟨front, d, w, x, back, hline⟩ := exists_beginsLine hinner
  have hl := hline.chars_eq
  have ht := takes_of_tokens_eq_nil hs hls (x := x) (by simp [hl]) hline.solid
  have htext : s = (before.flatMap chars ++ (front ++ [d])) ++ (w ++ x :: (back ++ after.flatMap chars)) := by
    rw [← flatMap_chars_lexemes s, hls, List.flatMap_append, List.flatMap_cons, hl]
    simp
  obtain ⟨p, hfront, -, hhead, hmore⟩ :=
    exists_linePlace htext (by simpa using hline.breaks) hline.blank hline.on_line hline.solid
  rcases overlooked_eq_zero_iff.1 hzero _ _ _ p.writtenLines_eq with hstart | hopen
  · obtain ⟨e, t, hmark, he⟩ := startsComment_iff.1 hstart
    obtain ⟨more, hpre⟩ := hmark ▸ p.line_isPrefix
    rw [hhead, hmore] at hpre
    exact h.ne_mark hls ht hline he hpre.symm
  · rw [hfront] at hopen
    exact not_staysOpen_of_begun hs h hls ht hann hl hline.breaks hopen

end BeginsLine

end Semblance
