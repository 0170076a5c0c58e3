import Semblance.Proofs.Lexing.Joining

/-!
# Comments and trimmed texts

A comment in front of a text gives no token (`tokens_of_comment`), and neither does white space after a text, where it
may become part of a comment (`tokens_append_of_isBlank`).  So a text has the tokens of its trimmed form
(`tokens_trim`).
-/

namespace Semblance

open Lexeme Text

/-! ### Comments -/

/-- A closing mark does not come about where two texts meet, unless the second starts with the slash. -/
theorem not_close_append {u v : List Char} (hu : ¬ ['*', '/'] <:+: u) (hv : ¬ ['*', '/'] <:+: v)
    (hhead : v.head? ≠ some '/') : ¬ ['*', '/'] <:+: u ++ v := by
  induction u with
  | nil => exact hv
  | cons c u ih =>
    rw [infix_cons_iff_of_close, not_or] at hu
    rw [List.cons_append, infix_cons_iff_of_close, not_or]
    refine ⟨?_, ih hu.2⟩
    cases u with
    | nil => exact fun h => hhead h.2
    | cons d u => exact hu.1

theorem not_close_of_notMem {s : List Char} (h : '/' ∉ s) : ¬ ['*', '/'] <:+: s :=
  fun hs => h (hs.subset (by simp))

/-- A comment at the start of a text is its first lexeme. -/
theorem first_of_comment {c : Char} {s rest : List Char} (h : Takes .comment (c :: s) rest) :
    first c (s ++ rest) = ⟨.comment, c, s⟩ := by
  refine first_of_takes h fun cls hcls => ?_
  cases cls <;> simp [LexemeClass.turn] at hcls

/-- A comment at the start of a text gives no token. -/
theorem tokens_of_comment {piece rest : List Char} (h : Takes .comment piece rest) :
    tokens (piece ++ rest) = tokens rest := by
  obtain ⟨c, s, rfl⟩ := List.exists_cons_of_ne_nil h.ne_nil
  rw [List.cons_append, tokens_cons, first_of_comment h, List.drop_left]
  rfl

/-! ### White space after a text -/

theorem solidLexemes_of_isBlank {w : List Char} (hw : ∀ c ∈ w, isBlank c) : solidLexemes w = [] := by
  induction w with
  | nil => simp
  | cons c w ih => rw [solidLexemes_cons_of_isBlank (hw c (by simp)), ih fun d hd => hw d (.tail _ hd)]

theorem tokens_of_isBlank {w : List Char} (hw : ∀ c ∈ w, isBlank c) : tokens w = [] := by
  rw [tokens_eq_filterMap_solid, solidLexemes_of_isBlank hw, List.filterMap_nil]

/-- A comment that reaches the end of a text goes on in white space that follows. -/
theorem exists_takes_comment {piece w : List Char} (h : Takes .comment piece []) (hw : ∀ c ∈ w, isBlank c) :
    ∃ more rest, w = more ++ rest ∧ Takes .comment (piece ++ more) rest := by
  have hslash : '/' ∉ w := fun hm => absurd (hw _ hm) (by decide)
  cases h with
  | @lineComment line _ hl _ =>
    obtain ⟨run, rest, rfl, -, hin, hout⟩ := exists_run (· ≠ '\n') w
    have hrun : '\n' ∉ run := fun hn => by simpa using hin _ hn
    exact ⟨run, rest, rfl, .lineComment (by simp [hl, hrun]) fun c hc => by simpa using hout c hc⟩
  | blockComment hb => exact ⟨[], w, rfl, by simpa using .blockComment hb⟩
  | @openComment block hb =>
    refine ⟨w, [], by simp, .openComment (not_close_append hb (not_close_of_notMem hslash) ?_)⟩
    exact fun hm => hslash (List.mem_of_mem_head? hm)

/-- A string that is not closed in a text is not closed by characters other than the quote either. -/
theorem closing?_append_of_notMem {quote : Char} {spans : Bool} (hb : quote ≠ '\\') {n : Nat} {s w : List Char}
    (hq : quote ∉ w) (h : closing? quote spans n s = none) : closing? quote spans n (s ++ w) = none := by
  cases hc : closing? quote spans n (s ++ w) with
  | none => rfl
  | some m =>
    obtain ⟨inner, rest, happ, -, hi⟩ := exists_of_closing? hc
    rcases List.append_eq_append_iff.1 happ with ⟨t, rfl, hw⟩ | ⟨t, rfl, ht⟩
    · exact absurd (hw ▸ by simp) hq
    · cases t with
      | nil => exact absurd (show quote ∈ w by rw [← List.nil_append w, ← ht]; simp) hq
      | cons d t =>
        obtain ⟨rfl, -⟩ := List.cons.inj ht
        simp [closing?_append hb hi n t] at h

theorem string?_append_of_isBlank {c : Char} {s w : List Char} (hw : ∀ d ∈ w, isBlank d) (h : string? c s = none) :
    string? c (s ++ w) = none := by
  have hmem (hc : isBlank c = false) : c ∉ w := fun hm => by simp [hw c hm] at hc
  unfold string? at h ⊢
  split at h
  · rename_i hc
    have hc' : c = '"' ∨ c = '\'' := by simpa using hc
    rw [if_pos hc]
    refine closing?_append_of_notMem ?_ (hmem ?_) h
    · rcases hc' with rfl | rfl <;> decide
    · rcases hc' with rfl | rfl <;> decide
  · rename_i hc
    rw [if_neg hc]
    split at h
    · rename_i hc
      subst hc
      rw [if_pos rfl]
      exact closing?_append_of_notMem (by decide) (hmem (by decide)) h
    · rename_i hc
      rw [if_neg hc]

/-- White space after a text gives no tokens. -/
theorem tokens_append_of_isBlank {w : List Char} (hw : ∀ c ∈ w, isBlank c) :
    (s : List Char) → tokens (s ++ w) = tokens s
  | [] => by simpa using tokens_of_isBlank hw
  | c :: s => by
    by_cases hc : isBlank c
    · rw [List.cons_append, tokens_cons_of_isBlank hc, tokens_cons_of_isBlank hc]
      exact tokens_append_of_isBlank hw s
    have hb : isBlank c = false := by simpa using hc
    have hsplit := tail_first_append c s
    by_cases hend : (first c s).cls = .comment ∧ s.drop (first c s).tail.length = []
    · -- the comment takes the whole text, and may take some of the white space
      obtain ⟨hcls, hrest⟩ := hend
      rw [hrest, List.append_nil] at hsplit
      have ht : Takes .comment (c :: s) [] := by
        have := (isFirst_first c s).takes
        rwa [hcls, hrest, chars, hsplit] at this
      obtain ⟨more, rest, rfl, ht'⟩ := exists_takes_comment ht hw
      have hall := tokens_of_comment ht
      rw [List.append_nil] at hall
      rw [← List.append_assoc, tokens_of_comment ht', hall, tokens_nil]
      exact tokens_of_isBlank fun d hd => hw d (by simp [hd])
    · have hmore : ∀ d ∈ w.head?, isBlank d := fun d hd => hw d (List.mem_of_mem_head? hd)
      have happ := first_append hb hmore (string?_append_of_isBlank hw) fun hcls hrest => absurd ⟨hcls, hrest⟩ hend
      have hn : (first c s).tail.length ≤ s.length := List.IsPrefix.length_le ⟨_, hsplit⟩
      rw [List.cons_append, tokens_cons, tokens_cons, happ, List.drop_append_of_le_length hn]
      rw [tokens_append_of_isBlank hw (s.drop _)]
  termination_by s => s.length

/-- Trimming a text keeps its tokens. -/
theorem tokens_trim (s : List Char) : tokens (trim s) = tokens s := by
  have hsplit := List.takeWhile_append_dropWhile (p := isBlank) (l := (s.dropWhile isBlank).reverse)
  have hw : ∀ c ∈ ((s.dropWhile isBlank).reverse.takeWhile isBlank).reverse, isBlank c := by
    intro c hc
    exact List.mem_takeWhile_imp (List.mem_reverse.1 hc)
  have happ := congrArg List.reverse hsplit
  rw [List.reverse_append, List.reverse_reverse] at happ
  rw [trim, ← tokens_append_of_isBlank hw, happ, tokens_eq_filterMap_solid, solidLexemes_dropWhile,
    ← tokens_eq_filterMap_solid]

end Semblance
