import Semblance.Proofs.Lexing.Trimming
import Semblance.Proofs.Text.Squeeze

/-!
# Reflowed texts

Two texts with one squeezed form differ in the lengths of their runs of white space, and in which of them have a line
feed.  The lexer takes a lexeme in one text exactly if it takes its counterpart in the other, as long as no line feed
decides where a lexeme ends (`first_of_squeeze`): only line comments and strings in single or double quotes end at
one.
-/

namespace Semblance

open Lexeme Text

namespace Lexeme

variable {c : Char} {s t : List Char}

/-! ### Pieces and their counterparts -/

/-- A rule that takes nothing takes nothing in the other text, strings apart. -/
theorem rule_eq_none_of_squeeze {cls : LexemeClass} (hc : isBlank c = false) (h : squeeze s = squeeze t)
    (hstring : cls = .string → string? c t = none) (hnone : rule cls c s = none) : rule cls c t = none := by
  cases cls with
  | string => exact hstring rfl
  | comment =>
    refine comment?_eq_none_iff.2 fun hslash => ?_
    obtain ⟨hline, hblock⟩ := comment?_eq_none_iff.1 hnone hslash
    exact ⟨fun ht => hline (head?_of_squeeze h (by decide) ht), fun ht => hblock (head?_of_squeeze h (by decide) ht)⟩
  | number => exact number?_eq_none_iff.2 (number?_eq_none_iff.1 hnone)
  | operator =>
    have hcons : squeeze (c :: s) = squeeze (c :: t) := by rw [squeeze_cons hc, squeeze_cons hc, h]
    refine operator?_eq_none_iff.2 fun op hop hpre => operator?_eq_none_iff.1 hnone op hop ?_
    exact isPrefix_of_squeeze hcons (fun _ => isBlank_of_mem_operator hop) hpre
  | word =>
    have hstart : ¬ isWordStart c := fun hstart => by simp [rule, word?, hstart] at hnone
    simp [rule, word?, hstart]
  | blank => simp [rule, blank?, hc]
  | punctuation => exact hnone
  | other => exact hnone

/-- A piece without white space is taken in the other text as well. -/
theorem Takes.of_squeeze {cls : LexemeClass} {piece rest rest' : List Char} (ht : Takes cls piece rest)
    (hcomment : cls ≠ .comment) (hstring : cls ≠ .string) (hblank : cls ≠ .blank)
    (h : squeeze rest = squeeze rest') : Takes cls piece rest' := by
  -- a run that ends before one rest ends before the other
  have hhead {p : Char → Bool} (hp : ∀ d, p d → isBlank d = false) (hr : ∀ d ∈ rest.head?, ¬ p d) :
      ∀ d ∈ rest'.head?, ¬ p d := fun d hd hpd => hr d (head?_of_squeeze h (hp d hpd) hd) hpd
  cases ht with
  | word hstart hs hr => exact .word hstart hs (hhead (fun _ => isBlank_of_isWordPart) hr)
  | whole hne hd hr hp =>
    refine .whole hne hd (hhead (fun _ => isBlank_of_isDigit) hr) ?_
    rintro d more rfl hdd
    have hpre : ['.', d] <+: rest := by
      refine isPrefix_of_squeeze h ?_ (List.prefix_append ['.', d] more)
      simp [isBlank_of_isDigit hdd]
      decide
    obtain ⟨more', rfl⟩ := hpre
    exact hp d more' rfl hdd
  | decimal hne hd hf hfd hr => exact .decimal hne hd hf hfd (hhead (fun _ => isBlank_of_isDigit) hr)
  | operator hop hmax =>
    refine .operator hop fun op' hop' hpre => hmax op' hop' ?_
    exact isPrefix_of_squeeze (squeeze_append_congr piece h) (fun _ => isBlank_of_mem_operator hop') hpre
  | punctuation hmark => exact .punctuation hmark
  | other => exact .other
  | blank => exact absurd rfl hblank
  | _ => contradiction

/-- A mark without white space stands in both texts or in none. -/
theorem isInfix_of_squeeze {c : Char} {u s t : List Char} (hu : ∀ d ∈ c :: u, isBlank d = false)
    (h : squeeze s = squeeze t) (ht : c :: u <:+: t) : c :: u <:+: s := by
  obtain ⟨before, after, rfl⟩ := ht
  rw [List.append_assoc, List.cons_append] at h
  obtain ⟨before', more, rfl, -, hmore⟩ := exists_of_squeeze_border (hu c (by simp)) h.symm
  obtain ⟨after', rfl, -⟩ := exists_of_squeeze_append (fun d hd => hu d (.tail _ hd)) hmore
  exact ⟨before', after', by simp⟩

/-- White space may be added in front of the inside of a template. -/
theorem IsInside.append_of_isBlank {quote : Char} (hq : isBlank quote = false) {w s : List Char}
    (hw : ∀ d ∈ w, isBlank d) (hs : IsInside quote true s) : IsInside quote true (w ++ s) := by
  induction w with
  | nil => exact hs
  | cons d w ih =>
    have hd : isBlank d := hw d (by simp)
    refine .plain ?_ ?_ (fun _ => rfl) (ih fun e he => hw e (.tail _ he))
    · rintro rfl
      simp [hq] at hd
    · rintro rfl
      exact absurd hd (by decide)

/-- A template ends in the other text at the counterpart of its closing quote. -/
theorem IsInside.of_squeeze {quote : Char} (hq : isBlank quote = false) {s rest t : List Char}
    (hs : IsInside quote true s) (h : squeeze (s ++ quote :: rest) = squeeze t) :
    ∃ s' rest', t = s' ++ quote :: rest' ∧ IsInside quote true s' ∧ squeeze rest = squeeze rest' := by
  induction hs generalizing t with
  | nil =>
    obtain ⟨rest', rfl, hrest⟩ := exists_of_squeeze_cons hq h
    exact ⟨[], rest', rfl, .nil, hrest⟩
  | @plain c s hc hslash hn _ ih =>
    by_cases hblank : isBlank c
    · obtain ⟨w, t', rfl, hw, ht⟩ := exists_of_squeeze_blank hblank h
      obtain ⟨s', rest', rfl, hs', hrest⟩ := ih ht
      exact ⟨w ++ s', rest', by simp, hs'.append_of_isBlank hq hw, hrest⟩
    · obtain ⟨t', rfl, ht⟩ := exists_of_squeeze_cons (by simpa using hblank) h
      obtain ⟨s', rest', rfl, hs', hrest⟩ := ih ht
      exact ⟨c :: s', rest', rfl, .plain hc hslash hn hs', hrest⟩
  | @escaped c s _ ih =>
    obtain ⟨t, rfl, ht⟩ := exists_of_squeeze_cons (by decide) h
    by_cases hblank : isBlank c
    · obtain ⟨w, t', rfl, hw, ht'⟩ := exists_of_squeeze_blank hblank ht
      obtain ⟨s', rest', rfl, hs', hrest⟩ := ih ht'
      cases w with
      | cons d w =>
        have hmore := hs'.append_of_isBlank hq fun e he => hw e (.tail _ he)
        exact ⟨'\\' :: d :: (w ++ s'), rest', by simp, .escaped hmore, hrest⟩
      | nil =>
        -- the next character is white space too, and stands in for the escaped one
        cases s' with
        | nil =>
          have hquote := isBlank_head_of_squeeze hblank ht
          simp [hq] at hquote
        | cons d s' =>
          have hd := isBlank_head_of_squeeze hblank ht
          cases hs' with
          | plain _ _ _ hmore => exact ⟨'\\' :: d :: s', rest', rfl, .escaped hmore, hrest⟩
          | escaped _ => exact absurd hd (by decide)
    · obtain ⟨t', rfl, ht'⟩ := exists_of_squeeze_cons (by simpa using hblank) ht
      obtain ⟨s', rest', rfl, hs', hrest⟩ := ih ht'
      exact ⟨'\\' :: c :: s', rest', rfl, .escaped hs', hrest⟩

/-- A block comment ends in the other text at the counterpart of its closing mark. -/
theorem Takes.exists_comment_of_squeeze {s rest t : List Char} (ht : Takes .comment ('/' :: '*' :: s) rest)
    (h : squeeze (s ++ rest) = squeeze t) :
    ∃ s' rest', t = s' ++ rest' ∧ Takes .comment ('/' :: '*' :: s') rest' ∧ squeeze rest = squeeze rest' := by
  have hmark : ∀ d ∈ ['*', '/'], isBlank d = false := by
    simp only [List.forall_mem_cons]
    exact ⟨by decide, by decide, by simp⟩
  cases ht with
  | @blockComment block _ hb =>
    rw [List.append_assoc] at h
    obtain ⟨block', more, rfl, hblock, hmore⟩ := exists_of_squeeze_border (by decide) h
    obtain ⟨rest', rfl, hrest⟩ := exists_of_squeeze_cons (by decide) hmore
    have hb' : ¬ ['*', '/'] <:+: block' ++ ['*'] := fun hi => hb (isInfix_of_squeeze hmark hblock hi)
    exact ⟨block' ++ ['*', '/'], rest', by simp, .blockComment hb', hrest⟩
  | openComment hb =>
    rw [List.append_nil] at h
    have hb' : ¬ ['*', '/'] <:+: t := fun hi => hb (isInfix_of_squeeze hmark h hi)
    exact ⟨t, [], by simp, .openComment hb', rfl⟩

/-- Where no back quote starts a string in one text, it starts none in the other. -/
theorem string_eq_none_of_squeeze (hq : c ≠ '"') (hq' : c ≠ '\'') (h : squeeze s = squeeze t)
    (hnone : rule .string c s = none) : rule .string c t = none := by
  by_cases hc : c = '\x60'
  · subst hc
    refine rule_eq_none_iff.2 fun piece rest he ht => ?_
    cases ht with
    | quoted hquote => rcases hquote with rfl | rfl <;> simp at he
    | @template inner _ hi =>
      obtain rfl : t = inner ++ '\x60' :: rest := by simpa using he.symm
      obtain ⟨inner', rest', rfl, hi', -⟩ := hi.of_squeeze (by decide) h.symm
      exact rule_eq_none_iff.1 hnone ('\x60' :: (inner' ++ ['\x60'])) rest' (by simp) (.template hi')
  · simp [rule, string?, hq, hq', hc]

/-! ### The first lexeme and its counterpart -/

/-- A comment that ends at the next line feed. -/
def IsLineComment (l : Lexeme) : Prop :=
  l.cls = .comment ∧ l.tail.head? = some '/'

instance (l : Lexeme) : Decidable l.IsLineComment :=
  inferInstanceAs (Decidable (_ ∧ _))

theorem isLineComment_first_iff : (first c s).IsLineComment ↔ c = '/' ∧ s.head? = some '/' := by
  constructor
  · rintro ⟨hcls, hhead⟩
    have ht := (isFirst_first c s).takes
    generalize s.drop (first c s).tail.length = rest at ht
    obtain ⟨tail, htail⟩ := List.head?_eq_some_iff.1 hhead
    have hs : s.head? = some '/' := by
      rw [← tail_first_append c s, htail]
      rfl
    rw [hcls, chars, htail] at ht
    generalize hp : (first c s).head :: '/' :: tail = piece at ht
    cases ht with
    | lineComment => exact ⟨(List.cons.inj hp).1, hs⟩
    | blockComment => simp at hp
    | openComment => simp at hp
  · rintro ⟨rfl, hs⟩
    obtain ⟨line, rfl⟩ := List.head?_eq_some_iff.1 hs
    obtain ⟨run, rest, rfl, -, hin, hout⟩ := exists_run (· ≠ '\n') line
    have ht : Takes .comment ('/' :: '/' :: run) rest :=
      .lineComment (fun hn => by simpa using hin _ hn) fun d hd => by simpa using hout d hd
    rw [← List.cons_append, first_of_comment ht]
    exact ⟨rfl, rfl⟩

/-- Lexemes of one class, with one text unless they are comments or strings. -/
def Matches (l m : Lexeme) : Prop :=
  l.cls = m.cls ∧ (l.cls ≠ .comment → l.cls ≠ .string → l = m)

theorem Takes.solid {cls : LexemeClass} {piece rest : List Char} (h : Takes cls piece rest)
    (hcomment : cls ≠ .comment) (hstring : cls ≠ .string) (hblank : cls ≠ .blank) (hother : cls ≠ .other) :
    ∀ d ∈ piece, isBlank d = false := by
  cases h with
  | @word c s _ hstart hs =>
    intro d hd
    rcases List.mem_cons.1 hd with rfl | hd
    · exact isBlank_of_isWordPart (isWordPart_of_isWordStart hstart)
    · exact isBlank_of_isWordPart (hs d hd)
  | whole _ hd => exact fun d hmem => isBlank_of_isDigit (hd d hmem)
  | decimal _ hd _ hfd =>
    intro d hmem
    rcases List.mem_append.1 hmem with hmem | hmem
    · exact isBlank_of_isDigit (hd d hmem)
    · rcases List.mem_cons.1 hmem with rfl | hmem
      · decide
      · exact isBlank_of_isDigit (hfd d hmem)
  | operator hop => exact fun d => isBlank_of_mem_operator hop
  | punctuation hmark =>
    have hall : punctuationMarks.toList.all fun d => !isBlank d := by decide
    simpa using List.all_eq_true.1 hall _ hmark
  | blank => exact absurd rfl hblank
  | other => exact absurd rfl hother
  | _ => contradiction

/-- The piece that the first rule takes has its counterpart, if it is no line comment and starts with neither a single
nor a double quote. -/
theorem exists_takes_of_squeeze {cls : LexemeClass} {piece rest : List Char} (ht : Takes cls (c :: piece) rest)
    (hc : isBlank c = false) (hblank : cls ≠ .blank) (hline : cls = .comment → piece.head? ≠ some '/')
    (hq : c ≠ '"') (hq' : c ≠ '\'') (h : squeeze (piece ++ rest) = squeeze t) :
    ∃ piece' rest', t = piece' ++ rest' ∧ Takes cls (c :: piece') rest' ∧ squeeze rest = squeeze rest' ∧
      (cls ≠ .comment → cls ≠ .string → piece = piece') := by
  by_cases hcomment : cls = .comment
  · subst hcomment
    have hstart : c = '/' ∧ ∃ block, piece = '*' :: block := by
      cases ht with
      | lineComment => exact absurd rfl (hline rfl)
      | blockComment => exact ⟨rfl, _, rfl⟩
      | openComment => exact ⟨rfl, _, rfl⟩
    obtain ⟨rfl, block, rfl⟩ := hstart
    obtain ⟨t, rfl, hblock⟩ := exists_of_squeeze_cons (by decide) h
    obtain ⟨block', rest', rfl, ht', hrest⟩ := ht.exists_comment_of_squeeze hblock
    exact ⟨'*' :: block', rest', rfl, ht', hrest, fun hne => absurd rfl hne⟩
  by_cases hstring : cls = .string
  · subst hstring
    cases ht with
    | quoted hquote => exact absurd hquote (by simp [hq, hq'])
    | @template inner _ hi =>
      rw [List.append_assoc, List.singleton_append] at h
      obtain ⟨inner', rest', rfl, hi', hrest⟩ := hi.of_squeeze (by decide) h
      exact ⟨inner' ++ ['\x60'], rest', by simp, .template hi', hrest, fun _ hne => absurd rfl hne⟩
  · have hsolid : ∀ d ∈ piece, isBlank d = false := by
      by_cases hother : cls = .other
      · subst hother
        cases ht with
        | other => simp
      · exact fun d hd => ht.solid hcomment hstring hblank hother d (.tail _ hd)
    obtain ⟨rest', rfl, hrest⟩ := exists_of_squeeze_append hsolid h
    exact ⟨piece, rest', rfl, ht.of_squeeze hcomment hstring hblank hrest, hrest, fun _ _ => rfl⟩

theorem dropSolid_first (c : Char) (s : List Char) (n : Nat) :
    dropSolid (solidCount (first c s).chars + n) (c :: s) = dropSolid n (s.drop (first c s).tail.length) := by
  have happ := dropSolid_append (first c s).chars n (s.drop (first c s).tail.length)
  rwa [chars_first_append] at happ

theorem normal_drop_of_solidCount_eq (h : squeeze s = squeeze t)
    (hcount : solidCount (first c s).chars = solidCount (first c t).chars) :
    normal (s.drop (first c s).tail.length) = normal (t.drop (first c t).tail.length) := by
  have hcons : normal (c :: s) = normal (c :: t) := normal_eq_of_squeeze (squeeze_append_congr [c] h)
  have hdrop := normal_dropSolid hcons (solidCount (first c s).chars + 0)
  rw [dropSolid_first, hcount, dropSolid_first, dropSolid, dropSolid] at hdrop
  rwa [normal_dropWhile, normal_dropWhile] at hdrop

/-- A quote is a lexeme by itself or starts a string, which has more solid characters. -/
theorem first_quote_cases (hc : c ∈ quotes) (s : List Char) :
    first c s = ⟨.other, c, []⟩ ∨ (first c s).cls = .string ∧ 1 < solidCount (first c s).chars := by
  cases hstring : string? c s with
  | none => exact .inl (first_of_unclosed hc hstring)
  | some n =>
    right
    obtain ⟨piece, rest, rfl, -, ht⟩ := takes_of_string? hstring
    obtain ⟨inner, rfl⟩ : ∃ inner, piece = inner ++ [c] := by
      cases ht with
      | quoted => exact ⟨_, rfl⟩
      | template => exact ⟨_, rfl⟩
    have hsolid : ∀ c ∈ quotes, isBlank c = false := forall_mem_quotes (by decide) (by decide) (by decide)
    rw [first_of_string ht]
    refine ⟨rfl, ?_⟩
    simp [chars, solidCount, hsolid c hc]

/-- The first lexemes of two texts with one squeezed form match, and the rests have one normal form, if the lexemes
are no line comments and those that start with a single or double quote have as many solid characters. -/
theorem first_of_squeeze (hc : isBlank c = false) (h : squeeze s = squeeze t) (hline : ¬ (first c s).IsLineComment)
    (hquote : c = '"' ∨ c = '\'' → solidCount (first c s).chars = solidCount (first c t).chars) :
    (first c s).Matches (first c t) ∧
      normal (s.drop (first c s).tail.length) = normal (t.drop (first c t).tail.length) := by
  by_cases hq : c = '"' ∨ c = '\''
  · have hmem : c ∈ quotes := by rcases hq with rfl | rfl <;> decide
    have hcount := hquote hq
    refine ⟨?_, normal_drop_of_solidCount_eq h hcount⟩
    have hone : solidCount (⟨.other, c, []⟩ : Lexeme).chars = 1 := by simp [chars, solidCount, hc]
    rcases first_quote_cases hmem s with hs | ⟨hs, hs'⟩ <;> rcases first_quote_cases hmem t with ht | ⟨ht, ht'⟩
    · exact ⟨by rw [hs, ht], fun _ _ => by rw [hs, ht]⟩
    · rw [hs] at hcount
      omega
    · rw [ht] at hcount
      omega
    · exact ⟨by rw [hs, ht], fun _ hne => absurd hs hne⟩
  · obtain ⟨hq, hq'⟩ := not_or.1 hq
    have hsplit := tail_first_append c s
    obtain ⟨htakes, -⟩ := isFirst_first c s
    obtain ⟨piece, rest, rfl, ht, hrest, hsame⟩ := exists_takes_of_squeeze htakes hc (cls_first_ne_blank hc s)
      (fun hcls hhead => hline ⟨hcls, hhead⟩) hq hq' (hsplit.symm ▸ h)
    -- the rules of earlier turns take nothing in either text
    have hfirst : first c (piece ++ rest) = ⟨(first c s).cls, c, piece⟩ := by
      refine first_of_takes ht fun cls hcls => ?_
      have hnone : rule cls c s = none := (rule_measure c s).2 cls hcls
      refine rule_eq_none_of_squeeze hc h ?_ hnone
      rintro rfl
      exact string_eq_none_of_squeeze hq hq' h hnone
    rw [hfirst, List.drop_left]
    refine ⟨⟨rfl, fun hcomment hstring => ?_⟩, normal_eq_of_squeeze hrest⟩
    rw [← hsame hcomment hstring]
    rfl

end Lexeme

end Semblance
