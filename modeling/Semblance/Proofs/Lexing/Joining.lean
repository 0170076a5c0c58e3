import Semblance.Proofs.Lexing.Solid

/-!
# Joined texts

What follows a text can change its lexemes in three ways only: a block comment without its end goes on, a back quote
without a partner finds one, and a backslash at the end of a string escapes the line feed after it.  A text is sealed
if it has neither of the first two; a line feed that follows a sealed text is then a border that no lexeme crosses
(`solidLexemes_append_newline`).
-/

namespace Semblance

open Lexeme Text

namespace Lexeme

/-- A lexeme that what follows the text may change: a block comment without its end, or a single back quote. -/
def IsOpen (l : Lexeme) : Prop :=
  l.cls = .comment ∧ ['/', '*'] <+: l.chars ∧ ¬ ['*', '/'] <:+: l.chars.drop 2 ∨ l.cls = .other ∧ l.head = '\x60'

instance (l : Lexeme) : Decidable l.IsOpen :=
  inferInstanceAs (Decidable (_ ∧ _ ∨ _))

/-! ### More text after a lexeme -/

/-- What starts with white space adds nothing to a match of an operator. -/
theorem operator_starts_of_append {op s more : List Char} (hop : op ∈ operators)
    (hmore : ∀ c ∈ more.head?, isBlank c) (h : op <+: s ++ more) : op <+: s := by
  rcases List.prefix_or_prefix_of_prefix h (List.prefix_append s more) with hs | ⟨t, rfl⟩
  · exact hs
  · cases t with
    | nil => simp
    | cons c t =>
      obtain ⟨more, rfl⟩ := (List.prefix_append_right_inj s).1 h
      have hc : isBlank c = false := isBlank_of_mem_operator hop (by simp)
      simp [hmore c (by simp)] at hc

/-- A piece is still taken if white space follows the text, unless it is a comment that reached its end. -/
theorem Takes.append {cls : LexemeClass} {piece rest more : List Char} (h : Takes cls piece rest)
    (hcls : cls ≠ .blank) (hmore : ∀ c ∈ more.head?, isBlank c)
    (hcomment : cls = .comment → rest = [] → Takes .comment piece more) : Takes cls piece (rest ++ more) := by
  -- where a run ends, white space that follows does not go on with it
  have hhead {p : Char → Bool} (hp : ∀ c, isBlank c → ¬ p c) (hr : ∀ c ∈ rest.head?, ¬ p c) :
      ∀ c ∈ (rest ++ more).head?, ¬ p c := by
    cases rest with
    | nil => exact fun c hc => hp c (hmore c hc)
    | cons d rest => exact hr
  have hword : ∀ c, isBlank c → ¬ isWordPart c := fun c hb hw => by simp [isBlank_of_isWordPart hw] at hb
  have hdigit : ∀ c, isBlank c → ¬ c.isDigit := fun c hb hd => hword c hb (isWordPart_of_isDigit hd)
  cases h with
  | lineComment hl hr =>
    cases rest with
    | nil => exact hcomment rfl rfl
    | cons d rest => exact .lineComment hl hr
  | openComment hb => exact hcomment rfl rfl
  | blockComment hb => exact .blockComment hb
  | quoted hq hs => exact .quoted hq hs
  | template hs => exact .template hs
  | word hc hs hr => exact .word hc hs (hhead hword hr)
  | whole hne hd hr hp =>
    refine .whole hne hd (hhead hdigit hr) ?_
    rintro d tail he
    -- the point and the digit after it would both belong to the rest
    match rest, he with
    | [], he =>
      obtain rfl : more = '.' :: d :: tail := he
      exact absurd (hmore '.' (by simp)) (by decide)
    | [_], he =>
      obtain rfl : more = d :: tail := (List.cons.inj he).2
      exact hdigit d (hmore d (by simp))
    | _ :: c :: rest, he =>
      obtain ⟨rfl, rfl, -⟩ : _ = '.' ∧ c = d ∧ _ = tail := by simpa using he
      exact hp c rest rfl
  | decimal hne hd hf hfd hr => exact .decimal hne hd hf hfd (hhead hdigit hr)
  | operator hop hmax =>
    refine .operator hop fun op' hop' hpre => hmax op' hop' ?_
    rw [← List.append_assoc] at hpre
    exact operator_starts_of_append hop' hmore hpre
  | punctuation hc => exact .punctuation hc
  | blank => exact absurd rfl hcls
  | other => exact .other

/-! ### More text where a rule takes nothing -/

/-- A rule that takes nothing still does so if white space follows the text, strings apart. -/
theorem rule_append_eq_none {cls : LexemeClass} {c : Char} {s more : List Char} (hmore : ∀ d ∈ more.head?, isBlank d)
    (hstring : cls = .string → string? c (s ++ more) = none) (h : rule cls c s = none) :
    rule cls c (s ++ more) = none := by
  cases cls with
  | string => exact hstring rfl
  | comment =>
    refine comment?_eq_none_iff.2 fun hc => ?_
    have hs := comment?_eq_none_iff.1 h hc
    cases s with
    | nil => exact ⟨fun hm => absurd (hmore _ hm) (by decide), fun hm => absurd (hmore _ hm) (by decide)⟩
    | cons d s => exact hs
  | word =>
    have hc : ¬ isWordStart c := fun hc => by simp [rule, word?, hc] at h
    simp [rule, word?, hc]
  | number => exact number?_eq_none_iff.2 (number?_eq_none_iff.1 h)
  | operator =>
    refine operator?_eq_none_iff.2 fun op hop hpre => operator?_eq_none_iff.1 h op hop ?_
    exact operator_starts_of_append hop hmore hpre
  | punctuation => exact h
  | blank =>
    have hc : ¬ isBlank c := fun hc => by simp [rule, blank?, hc] at h
    simp [rule, blank?, hc]
  | other => exact h

/-- The first lexeme stays the same if white space follows the text, strings and comments that reached its end apart. -/
theorem first_append {c : Char} {s more : List Char} (hc : isBlank c = false) (hmore : ∀ d ∈ more.head?, isBlank d)
    (hstring : string? c s = none → string? c (s ++ more) = none)
    (hcomment : (first c s).cls = .comment → s.drop (first c s).tail.length = [] →
      Takes .comment (first c s).chars more) : first c (s ++ more) = first c s := by
  obtain ⟨htakes, hearlier⟩ := isFirst_first c s
  have happ := chars_first_append c s
  -- the lexeme is the first in the longer text too, where only one is
  have hfirst : IsFirst (first c s) (s.drop (first c s).tail.length ++ more) := by
    refine ⟨htakes.append (cls_first_ne_blank hc s) hmore hcomment, fun cls hcls piece rest' he => ?_⟩
    have hnone : rule cls c s = none := rule_eq_none_iff.2 fun p r hp => hearlier cls hcls p r (hp.trans happ.symm)
    refine rule_eq_none_iff.1 (rule_append_eq_none hmore ?_ hnone) piece rest' ?_
    · rintro rfl
      exact hstring hnone
    · rw [he, ← List.append_assoc, happ, List.cons_append]
  have heq := hfirst.eq_first
  rw [← List.append_assoc, tail_first_append] at heq
  exact heq.symm

/-! ### A line feed after a text -/

/-- A string that is not closed in a text is not closed after a line feed either, unless a backslash at the end of
the text escapes the line feed and no other line feed follows. -/
theorem closing?_append_newline {quote : Char} (hq : quote ≠ '\n') {n : Nat} {s b : List Char}
    (hend : s.getLast? ≠ some '\\' ∨ b.head? = some '\n') (h : closing? quote false n s = none) :
    closing? quote false n (s ++ '\n' :: b) = none := by
  have hnewline (m : Nat) (t : List Char) : closing? quote false m ('\n' :: t) = none := by
    rw [closing?_cons (by decide), if_neg (Ne.symm hq), if_pos (by simp)]
  fun_induction closing? quote false n s with
  | case1 n => exact hnewline n b
  | case2 n =>
    -- the backslash escapes the line feed, and the next line feed ends the search
    obtain ⟨b, rfl⟩ := List.head?_eq_some_iff.1 (hend.resolve_left (by simp))
    rw [List.cons_append, List.nil_append, closing?]
    exact hnewline _ b
  | case3 n c s ih =>
    rw [List.cons_append, List.cons_append, closing?]
    refine ih ?_ h
    cases s with
    | nil => simp
    | cons d s => simpa using hend
  | case4 => simp at h
  | case5 n c s hb he hc hn =>
    obtain rfl : c = '\n' := by simpa using hn
    exact hnewline n _
  | case6 n c s hb he hc hn ih =>
    rw [List.cons_append, closing?_cons (ne_backslash hb he), if_neg hc, if_neg hn]
    refine ih ?_ h
    cases s with
    | nil => simp
    | cons d s => simpa using hend

/-- The characters that start a string. -/
def quotes : List Char := ['"', '\'', '\x60']

theorem forall_mem_quotes {p : Char → Prop} (hdouble : p '"') (hsingle : p '\'') (hback : p '\x60') :
    ∀ c ∈ quotes, p c := by
  simpa [quotes] using ⟨hdouble, hsingle, hback⟩

/-- A quote that starts no string is a lexeme by itself. -/
theorem first_of_unclosed {c : Char} (hc : c ∈ quotes) {s : List Char} (h : string? c s = none) :
    first c s = ⟨.other, c, []⟩ := by
  have hkind : ∀ c ∈ quotes, c ≠ '/' ∧ ¬ isWordStart c ∧ ¬ c.isDigit ∧ c ∉ punctuationMarks.toList ∧ ¬ isBlank c :=
    forall_mem_quotes (by decide) (by decide) (by decide)
  obtain ⟨hslash, hword, hdigit, hmark, hblank⟩ := hkind c hc
  have ht : Takes .other [c] s := .other
  refine first_of_takes ht fun cls hcls => ?_
  cases cls with
  | string => exact h
  | comment => exact comment?_eq_none_iff.2 fun he => absurd he hslash
  | word => simp [rule, word?, hword]
  | number => exact number?_eq_none_iff.2 hdigit
  | operator =>
    refine operator?_eq_none_iff.2 fun op hop hpre => ?_
    have hheads : ∀ c ∈ quotes, ∀ op ∈ operators, op ≠ [] ∧ c ∉ op :=
      forall_mem_quotes (by decide) (by decide) (by decide)
    obtain ⟨hne, hnot⟩ := hheads c hc op hop
    obtain ⟨d, op, rfl⟩ := List.exists_cons_of_ne_nil hne
    obtain ⟨rfl, -⟩ := List.cons_prefix_cons.1 hpre
    exact hnot (.head _)
  | punctuation => simp [rule, punctuation?, hmark]
  | blank => simp [rule, blank?, hblank]
  | other => exact absurd hcls (Nat.lt_irrefl _)

/-- A string at the start of a text is its first lexeme. -/
theorem first_of_string {c : Char} {s rest : List Char} (h : Takes .string (c :: s) rest) :
    first c (s ++ rest) = ⟨.string, c, s⟩ := by
  have hslash : c ≠ '/' := by
    cases h with
    | quoted hq => rcases hq with rfl | rfl <;> decide
    | template => decide
  refine first_of_takes h fun cls hcls => ?_
  cases cls with
  | comment => exact comment?_eq_none_iff.2 fun he => absurd he hslash
  | _ => simp [LexemeClass.turn] at hcls

/-- A back quote that starts no string is a lexeme by itself. -/
theorem first_backtick {s : List Char} (h : string? '\x60' s = none) : first '\x60' s = ⟨.other, '\x60', []⟩ :=
  first_of_unclosed (by decide) h

theorem string?_append_newline {c : Char} {s b : List Char} (ho : ¬ (first c s).IsOpen)
    (hend : s.getLast? ≠ some '\\' ∨ b.head? = some '\n') (h : string? c s = none) :
    string? c (s ++ '\n' :: b) = none := by
  by_cases hc : c = '\x60'
  · subst hc
    rw [first_backtick h] at ho
    exact absurd (.inr ⟨rfl, rfl⟩) ho
  · unfold string? at h ⊢
    split at h
    · rename_i hq
      rw [if_pos hq]
      exact closing?_append_newline (by rintro rfl; simp at hq) hend h
    · rename_i hq
      rw [if_neg hq, if_neg hc]

/-- The first lexeme stays the same if a line feed follows the text, unless it is open. -/
theorem first_append_newline {c : Char} {s b : List Char} (hc : isBlank c = false) (ho : ¬ (first c s).IsOpen)
    (hend : s.getLast? ≠ some '\\' ∨ b.head? = some '\n') : first c (s ++ '\n' :: b) = first c s := by
  have hnewline : ∀ d ∈ ('\n' :: b).head?, isBlank d := by simp; decide
  refine first_append hc hnewline (string?_append_newline ho hend) fun hcls hrest => ?_
  have ht := (isFirst_first c s).takes
  rw [hcls, hrest] at ht
  generalize hp : (first c s).chars = piece at ht
  cases ht with
  | lineComment hl => exact .lineComment hl (by simp)
  | blockComment hb => exact .blockComment hb
  | @openComment block hb => exact absurd (.inl ⟨hcls, ⟨block, hp.symm⟩, by rwa [hp]⟩) ho

end Lexeme

/-- No lexeme of a text is open. -/
def Sealed (s : List Char) : Prop :=
  ∀ l ∈ solidLexemes s, ¬ l.IsOpen

instance (s : List Char) : Decidable (Sealed s) :=
  inferInstanceAs (Decidable (∀ l ∈ solidLexemes s, ¬ l.IsOpen))

/-- A text either is sealed, and a line feed after it is a border between lexemes, or it has a first open lexeme, and
up to there the lexemes do not depend on what follows the line feed. -/
theorem sealed_or_open (b : List Char) :
    (a : List Char) → (a.getLast? ≠ some '\\' ∨ b.head? = some '\n') →
      Sealed a ∧ solidLexemes (a ++ '\n' :: b) = solidLexemes a ++ solidLexemes b ∨
        ∃ ls c s, (first c s).IsOpen ∧ solidLexemes a = ls ++ solidLexemes (c :: s) ∧
          solidLexemes (a ++ '\n' :: b) = ls ++ solidLexemes (c :: (s ++ '\n' :: b))
  | [], _ => by
    rw [List.nil_append, solidLexemes_cons_of_isBlank (by decide)]
    exact .inl ⟨by simp [Sealed], by simp⟩
  | c :: s, hend => by
    -- what is left of the text ends as the text does
    have hlast : ∀ rest, rest <:+ s → rest.getLast? ≠ some '\\' ∨ b.head? = some '\n' := by
      rintro rest ⟨t, rfl⟩
      cases rest with
      | nil => simp
      | cons d rest =>
        rw [← List.cons_append, List.getLast?_append_of_ne_nil _ (List.cons_ne_nil d rest)] at hend
        exact hend
    by_cases hc : isBlank c
    · rw [List.cons_append, solidLexemes_cons_of_isBlank hc, Sealed, solidLexemes_cons_of_isBlank hc]
      exact sealed_or_open b s (hlast s (List.suffix_refl s))
    by_cases ho : (first c s).IsOpen
    · exact .inr ⟨[], c, s, ho, rfl, rfl⟩
    -- the first lexeme is the same in both texts, and the rest is shorter
    have hb : isBlank c = false := by simpa using hc
    have happ := first_append_newline hb ho (hlast s (List.suffix_refl s))
    have hn : (first c s).tail.length ≤ s.length := List.IsPrefix.length_le ⟨_, tail_first_append c s⟩
    rw [List.cons_append, Sealed, solidLexemes_cons hb, solidLexemes_cons hb, happ, List.drop_append_of_le_length hn]
    rcases sealed_or_open b _ (hlast _ (List.drop_suffix _ s)) with ⟨hs, heq⟩ | ⟨ls, d, t, hd, hs, heq⟩
    · exact .inl ⟨List.forall_mem_cons.2 ⟨ho, hs⟩, by rw [heq, List.cons_append]⟩
    · exact .inr ⟨first c s :: ls, d, t, hd, by rw [hs, List.cons_append], by rw [heq, List.cons_append]⟩
  termination_by a => a.length

theorem Lexeme.IsOpen.isBlank_eq_false {c : Char} {s : List Char} (h : (first c s).IsOpen) : isBlank c = false := by
  by_contra hc
  rw [first_of_isBlank (by simpa using hc)] at h
  simp [IsOpen] at h

/-- After a sealed text a line feed is a border that no lexeme crosses, if no backslash escapes it or another line
feed follows. -/
theorem solidLexemes_append_newline {a b : List Char} (ha : Sealed a)
    (hend : a.getLast? ≠ some '\\' ∨ b.head? = some '\n') :
    solidLexemes (a ++ '\n' :: b) = solidLexemes a ++ solidLexemes b := by
  rcases sealed_or_open b a hend with ⟨-, h⟩ | ⟨ls, c, s, ho, hs, -⟩
  · exact h
  · have hmem : first c s ∈ solidLexemes a := by
      rw [hs, solidLexemes_cons ho.isBlank_eq_false]
      simp
    exact absurd ho (ha _ hmem)

theorem tokens_append_newline {a b : List Char} (ha : Sealed a)
    (hend : a.getLast? ≠ some '\\' ∨ b.head? = some '\n') : tokens (a ++ '\n' :: b) = tokens a ++ tokens b := by
  rw [tokens_eq_filterMap_solid, solidLexemes_append_newline ha hend, List.filterMap_append,
    ← tokens_eq_filterMap_solid, ← tokens_eq_filterMap_solid]

/-! ### Open lexemes -/

/-- A block comment without its end runs to the end of the text. -/
theorem eq_nil_of_takes_comment {block rest : List Char} (hb : ¬ ['*', '/'] <:+: block)
    (h : Takes .comment ('/' :: '*' :: block) rest) : rest = [] := by
  generalize hp : '/' :: '*' :: block = piece at h
  cases h with
  | lineComment => simp at hp
  | @blockComment inner _ _ =>
    obtain rfl : block = inner ++ ['*', '/'] := by simpa using hp
    exact absurd (List.suffix_append inner ['*', '/']).isInfix hb
  | openComment => rfl

/-- An open lexeme at the start of a text is a block comment without its end, or a single back quote. -/
theorem Lexeme.IsOpen.cases {c : Char} {s : List Char} (h : (first c s).IsOpen) :
    (∃ block, c :: s = '/' :: '*' :: block ∧ ¬ ['*', '/'] <:+: block) ∨ c = '\x60' ∧ string? '\x60' s = none := by
  rcases h with ⟨hcls, ⟨block, hchars⟩, hb⟩ | ⟨hcls, hhead⟩
  · have ht := (isFirst_first c s).takes
    have happ := chars_first_append c s
    rw [← hchars] at hb happ ht
    rw [hcls] at ht
    rw [eq_nil_of_takes_comment hb ht, List.append_nil] at happ
    exact .inl ⟨block, happ.symm, hb⟩
  · obtain rfl : c = '\x60' := hhead
    refine .inr ⟨rfl, (rule_measure '\x60' s).2 .string ?_⟩
    rw [show (measure '\x60' s).1 = .other from hcls]
    decide

/-- A quote that stands behind some other character than a backslash closes a string, if nothing before does. -/
theorem isSome_closing? {quote x : Char} (hx : x ≠ '\\') (hq : quote ≠ '\\') (n : Nat) (s rest : List Char) :
    (closing? quote true n (s ++ x :: quote :: rest)).isSome := by
  have hquote (m : Nat) : (closing? quote true m (quote :: rest)).isSome := by
    rw [closing?_cons hq, if_pos rfl, Option.isSome_some]
  fun_induction closing? quote true n s with
  | case1 n =>
    rw [List.nil_append, closing?_cons hx]
    split
    · rfl
    · simpa using hquote (n + 1)
  | case2 n =>
    rw [List.cons_append, List.nil_append, closing?]
    exact hquote (n + 2)
  | case3 n c s ih =>
    rw [List.cons_append, List.cons_append, closing?]
    exact ih
  | case4 n s hb he =>
    rw [List.cons_append, closing?_cons hq, if_pos rfl, Option.isSome_some]
  | case5 n c s hb he hc hn => simp at hn
  | case6 n c s hb he hc hn ih =>
    rw [List.cons_append, closing?_cons (ne_backslash hb he), if_neg hc, if_neg hn]
    exact ih

/-- A back quote with a partner is a string. -/
theorem first_of_template {s rest : List Char} (h : IsInside '\x60' true s) :
    first '\x60' (s ++ '\x60' :: rest) = ⟨.string, '\x60', s ++ ['\x60']⟩ := by
  have ht : Takes .string ('\x60' :: (s ++ ['\x60'])) rest := .template h
  rw [← first_of_string ht, List.append_assoc, List.singleton_append]

end Semblance
