import Semblance.Proofs.Lexing.Locality

/-!
# Comments at their places

Each character of a text is in a lexeme (`exists_lexeme_of_flatMap`), and in a text without tokens that lexeme is a
comment or white space (`takes_of_tokens_eq_nil`).  A block comment has a closing mark at its end, if it is not the end
of the text, and none before, but for a slash right behind its opening mark (`Takes.not_close`).
-/

namespace Semblance

open Lexeme Text

/-! ### Lexemes at their places -/

theorem isFirst_of_lexemes_eq {s : List Char} {before after : List Lexeme} {l : Lexeme}
    (h : lexemes s = before ++ l :: after) : l.IsFirst (after.flatMap chars) := by
  have hcuts : Cuts s (before ++ l :: after) := cuts_iff.2 h.symm
  clear h
  induction before generalizing s with
  | nil =>
    cases hcuts with
    | @cons _ rest _ hfirst hrest =>
      rw [cuts_iff.1 hrest, flatMap_chars_lexemes]
      exact hfirst
  | cons m before ih =>
    cases hcuts with
    | cons _ hrest => exact ih hrest

theorem exists_lexeme_of_flatMap {ls : List Lexeme} {a b : List Char} {x : Char}
    (h : ls.flatMap chars = a ++ x :: b) :
    ∃ before l after front back, ls = before ++ l :: after ∧ l.chars = front ++ x :: back ∧
      a = before.flatMap chars ++ front ∧ b = back ++ after.flatMap chars := by
  induction ls generalizing a with
  | nil => simp at h
  | cons l ls ih =>
    rw [List.flatMap_cons] at h
    rcases List.append_eq_append_iff.1 h with ⟨a', rfl, hls⟩ | ⟨_ | ⟨y, back⟩, hl, hxb⟩
    · obtain ⟨before, m, after, front, back, rfl, hm, rfl, hb⟩ := ih hls
      exact ⟨l :: before, m, after, front, back, rfl, hm, by simp, hb⟩
    · obtain ⟨before, m, after, front, back, rfl, hm, ha, hb⟩ := ih (a := []) hxb.symm
      refine ⟨l :: before, m, after, front, back, rfl, hm, ?_, hb⟩
      rw [List.flatMap_cons, List.append_assoc, ← ha, hl, List.append_nil, List.append_nil]
    · obtain ⟨rfl, rfl⟩ : x = y ∧ b = back ++ ls.flatMap chars := by simpa using hxb
      exact ⟨[], l, ls, a, back, rfl, hl, rfl, rfl⟩

/-- In a text without tokens, a lexeme with something other than white space is a comment. -/
theorem takes_of_tokens_eq_nil {s : List Char} (hs : tokens s = []) {before after : List Lexeme} {l : Lexeme}
    (hls : lexemes s = before ++ l :: after) {x : Char} (hx : x ∈ l.chars) (hsolid : isBlank x = false) :
    Takes .comment l.chars (after.flatMap chars) := by
  have htakes := (isFirst_of_lexemes_eq hls).takes
  rcases token?_eq_none_iff.1 (List.filterMap_eq_nil_iff.1 hs l (by simp [hls])) with hcls | hcls
  · exact hcls ▸ htakes
  · rw [hcls] at htakes
    cases htakes with
    | blank _ hb => exact absurd (hb x hx) (by simp [hsolid])

/-! ### Closing marks -/

theorem close_infix_append_iff {w : List Char} (hw : ∀ c ∈ w, isBlank c) {s : List Char} :
    ['*', '/'] <:+: w ++ s ↔ ['*', '/'] <:+: s := by
  induction w with
  | nil => rfl
  | cons c w ih =>
    have hc : c ≠ '*' := by
      rintro rfl
      exact absurd (hw '*' (by simp)) (by decide)
    rw [List.cons_append, infix_cons_iff_of_close, ih fun d hd => hw d (.tail _ hd)]
    simp [hc]

theorem close_infix_of_append {w : List Char} (hw : ∀ c ∈ w, isBlank c) {s : List Char} (h : ['*', '/'] <:+: s ++ w) :
    ['*', '/'] <:+: s := by
  have hslash : '/' ∉ w := fun hmem => absurd (hw '/' hmem) (by decide)
  by_contra hs
  exact not_close_append hs (not_close_of_notMem hslash) (fun hhead => hslash (List.mem_of_mem_head? hhead)) h

namespace Lexeme

variable {front back rest : List Char}

theorem Takes.exists_mark {piece : List Char} (h : Takes .comment piece rest) :
    ∃ e t, piece = '/' :: e :: t ∧ (e = '/' ∨ e = '*') := by
  cases h with
  | lineComment => exact ⟨_, _, rfl, .inl rfl⟩
  | blockComment => exact ⟨_, _, rfl, .inr rfl⟩
  | openComment => exact ⟨_, _, rfl, .inr rfl⟩

theorem Takes.isBlank_head? {piece : List Char} (h : Takes .comment piece rest) (hp : piece = front ++ back) :
    ∀ c ∈ front.head?, isBlank c = false := by
  obtain ⟨e, t, rfl, -⟩ := h.exists_mark
  cases front with
  | nil => simp
  | cons c front =>
    obtain ⟨rfl, -⟩ := List.cons_eq_cons.1 hp
    simp
    decide

/-- Before the end of a block comment there is no closing mark, other than one that shares its asterisk with the
opening mark. -/
theorem Takes.not_close {block : List Char} (h : Takes .comment ('/' :: '*' :: block) rest)
    (hshared : block.head? ≠ some '/') (hfront : '/' :: '*' :: block = front ++ back) (hback : back ≠ []) :
    ¬ ['*', '/'] <:+: front := by
  suffices hopen : ∃ inner : List Char,
      inner.head? ≠ some '/' ∧ ¬ ['*', '/'] <:+: inner ∧ front <+: '/' :: '*' :: inner by
    obtain ⟨inner, hhead, hinner, hpre⟩ := hopen
    have hblock : ¬ ['*', '/'] <:+: '/' :: '*' :: inner := by
      simp [infix_cons_iff_of_close, hhead, hinner]
    exact fun hclose => hblock (hclose.trans hpre.isInfix)
  have hpre : front <+: '/' :: '*' :: block := ⟨back, hfront.symm⟩
  cases h with
  | @blockComment inner _ hb =>
    refine ⟨inner ++ ['*'], ?_, hb, List.prefix_of_prefix_length_le hpre ⟨['/'], by simp⟩ ?_⟩
    · cases inner <;> simp_all
    · have hlength := congrArg List.length hfront
      have hpos := List.length_pos_of_ne_nil hback
      simp at hlength ⊢
      omega
  | openComment hb => exact ⟨block, hshared, hb, hpre⟩

/-- A block comment that is not the end of the text has its closing mark. -/
theorem Takes.close_infix {block : List Char} (h : Takes .comment ('/' :: '*' :: block) rest) (hrest : rest ≠ []) :
    ['*', '/'] <:+: '/' :: '*' :: block := by
  cases h with
  | @blockComment inner => exact ⟨'/' :: '*' :: inner, [], by simp⟩
  | openComment => exact absurd rfl hrest

end Lexeme

end Semblance
