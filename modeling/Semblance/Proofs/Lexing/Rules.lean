import Semblance.Proofs.Lexing.Grammar

/-!
# The rules of the lexer

Each rule of the lexer computes its relation: it finds a piece exactly if the relation takes the piece
(`rule_eq_some_iff`), and so it finds none exactly if the relation takes no piece (`rule_eq_none_iff`).
-/

namespace Semblance

namespace Lexeme

/-! ### Words and numbers -/

theorem word?_of_takes {c : Char} {s rest : List Char} (h : Takes .word (c :: s) rest) :
    word? c (s ++ rest) = some s.length := by
  cases h with
  | word hc hs hr => rw [word?, if_pos hc, takeWhile_append_of_head? hs hr]

theorem takes_of_word? {c : Char} {s : List Char} {n : Nat} (h : word? c s = some n) :
    ∃ t rest, s = t ++ rest ∧ t.length = n ∧ Takes .word (c :: t) rest := by
  unfold word? at h
  split at h
  · rename_i hc
    obtain ⟨run, rest, rfl, hrun, hin, hout⟩ := exists_run isWordPart s
    rw [hrun] at h
    exact ⟨run, rest, rfl, by simpa using h, .word hc hin hout⟩
  · simp at h

theorem number?_of_takes {c : Char} {s rest : List Char} (h : Takes .number (c :: s) rest) :
    number? c (s ++ rest) = some s.length := by
  generalize hp : c :: s = piece at h
  cases h with
  | @whole digits _ hne hd hr hpoint =>
    subst hp
    have hrun : (s ++ rest).takeWhile Char.isDigit = s :=
      takeWhile_append_of_head? (fun d hs => hd d (by simp [hs])) hr
    have hc : c.isDigit := hd c (by simp)
    simp only [number?, hc, ↓reduceIte, hrun, List.drop_left]
    split
    · rename_i d more
      simp [hpoint d more rfl]
    · rfl
  | @decimal digits fraction _ hne hd hf hfd hr =>
    obtain ⟨d, digits, rfl⟩ := List.exists_cons_of_ne_nil hne
    obtain ⟨f, fraction, rfl⟩ := List.exists_cons_of_ne_nil hf
    obtain ⟨rfl, rfl⟩ : c = d ∧ s = digits ++ '.' :: f :: fraction := by simpa using hp
    have hrun : (digits ++ '.' :: f :: (fraction ++ rest)).takeWhile Char.isDigit = digits :=
      takeWhile_append_of_head? (fun d hs => hd d (by simp [hs])) (by simp)
    have hmore : (fraction ++ rest).takeWhile Char.isDigit = fraction :=
      takeWhile_append_of_head? (fun d hs => hfd d (by simp [hs])) hr
    have hc : c.isDigit := hd c (by simp)
    have hfirst : f.isDigit := hfd f (by simp)
    simp only [number?, hc, ↓reduceIte, List.append_assoc, List.cons_append, hrun, List.drop_left, hfirst, hmore,
      List.length_append, List.length_cons]
    congr 1
    omega

theorem takes_of_number? {c : Char} {s : List Char} {n : Nat} (h : number? c s = some n) :
    ∃ t rest, s = t ++ rest ∧ t.length = n ∧ Takes .number (c :: t) rest := by
  unfold number? at h
  split at h
  · rename_i hc
    obtain ⟨run, rest, rfl, hrun, hin, hout⟩ := exists_run Char.isDigit s
    have hdigits : ∀ d ∈ c :: run, d.isDigit := by simpa using ⟨hc, hin⟩
    simp only [hrun, List.drop_left] at h
    split at h
    · rename_i d more
      split at h
      · rename_i hd
        obtain ⟨digits, rest, rfl, hmore, hin', hout'⟩ := exists_run Char.isDigit more
        rw [hmore] at h
        have ht : Takes .number ((c :: run) ++ '.' :: d :: digits) rest :=
          .decimal (by simp) hdigits (by simp) (by simpa using ⟨hd, hin'⟩) hout'
        exact ⟨run ++ '.' :: d :: digits, rest, by simp, by simp at h ⊢; omega, ht⟩
      · rename_i hd
        refine ⟨run, _, rfl, by simpa using h, .whole (by simp) hdigits hout ?_⟩
        rintro d' more' he
        obtain ⟨rfl, rfl⟩ : d = d' ∧ more = more' := by simpa using he
        exact hd
    · rename_i hp
      exact ⟨run, rest, rfl, by simpa using h, .whole (by simp) hdigits hout fun d more he => absurd he (hp d more)⟩
  · simp at h

/-! ### Operators, punctuation and white space -/

/-- In the table no operator stands before a longer one. -/
private theorem pairwise_operators : operators.Pairwise fun op op' => op'.length ≤ op.length := by decide

private theorem longest_of_find? {op s : List Char} (h : operators.find? (·.isPrefixOf s) = some op) :
    op ∈ operators ∧ op <+: s ∧ ∀ op' ∈ operators, op' <+: s → op'.length ≤ op.length := by
  have hpre : op <+: s := by simpa using List.find?_some h
  refine ⟨List.mem_of_find?_eq_some h, hpre, ?_⟩
  obtain ⟨-, before, after, hl, hbefore⟩ := List.find?_eq_some_iff_append.1 h
  -- entries before the first match do not match, and entries after it are no longer
  have hp := pairwise_operators
  rw [hl, List.pairwise_append, List.pairwise_cons] at hp
  intro op' hop' hpre'
  rw [hl, List.mem_append, List.mem_cons] at hop'
  rcases hop' with hop' | rfl | hop'
  · have := hbefore op' hop'
    simp [List.isPrefixOf_iff_prefix.2 hpre'] at this
  · exact Nat.le_refl _
  · exact hp.2.1.1 op' hop'

/-- The first operator of the table that a text starts with is the longest one. -/
private theorem find?_operators_iff {op s : List Char} :
    operators.find? (·.isPrefixOf s) = some op ↔
      op ∈ operators ∧ op <+: s ∧ ∀ op' ∈ operators, op' <+: s → op'.length ≤ op.length := by
  constructor
  · exact longest_of_find?
  · rintro ⟨hop, hpre, hmax⟩
    cases hf : operators.find? (·.isPrefixOf s) with
    | none =>
      have := List.find?_eq_none.1 hf op hop
      exact absurd (List.isPrefixOf_iff_prefix.2 hpre) this
    | some found =>
      obtain ⟨hmem, hfound, hlongest⟩ := longest_of_find? hf
      have hlen : found.length = op.length := Nat.le_antisymm (hmax found hmem hfound) (hlongest op hop hpre)
      rw [List.prefix_iff_eq_take.1 hfound, List.prefix_iff_eq_take.1 hpre, hlen]

theorem operator?_of_takes {c : Char} {s rest : List Char} (h : Takes .operator (c :: s) rest) :
    operator? c (s ++ rest) = some s.length := by
  cases h with
  | operator hop hmax =>
    have := find?_operators_iff.2 ⟨hop, List.prefix_append _ _, hmax⟩
    rw [List.cons_append] at this
    simp [operator?, this]

theorem takes_of_operator? {c : Char} {s : List Char} {n : Nat} (h : operator? c s = some n) :
    ∃ t rest, s = t ++ rest ∧ t.length = n ∧ Takes .operator (c :: t) rest := by
  obtain ⟨op, hop, rfl⟩ := Option.map_eq_some_iff.1 h
  obtain ⟨hmem, ⟨rest, hpre⟩, hmax⟩ := find?_operators_iff.1 hop
  obtain ⟨d, t, rfl⟩ := List.exists_cons_of_ne_nil fun he => absurd (he ▸ hmem) (by decide : [] ∉ operators)
  obtain ⟨rfl, rfl⟩ : d = c ∧ t ++ rest = s := by simpa using hpre
  exact ⟨t, rest, rfl, by simp, .operator hmem hmax⟩

theorem punctuation?_of_takes {c : Char} {s rest : List Char} (h : Takes .punctuation (c :: s) rest) :
    punctuation? c (s ++ rest) = some s.length := by
  cases h with
  | punctuation hc => simpa [punctuation?] using hc

theorem takes_of_punctuation? {c : Char} {s : List Char} {n : Nat} (h : punctuation? c s = some n) :
    ∃ t rest, s = t ++ rest ∧ t.length = n ∧ Takes .punctuation (c :: t) rest := by
  unfold punctuation? at h
  split at h
  · rename_i hc
    exact ⟨[], s, rfl, by simpa using h, .punctuation (by simpa using hc)⟩
  · simp at h

theorem blank?_of_takes {c : Char} {s rest : List Char} (h : Takes .blank (c :: s) rest) :
    blank? c (s ++ rest) = some s.length := by
  cases h with
  | blank hne hb hr =>
    rw [blank?, if_pos (hb c (by simp)), takeWhile_append_of_head? (fun d hd => hb d (by simp [hd])) hr]

theorem takes_of_blank? {c : Char} {s : List Char} {n : Nat} (h : blank? c s = some n) :
    ∃ t rest, s = t ++ rest ∧ t.length = n ∧ Takes .blank (c :: t) rest := by
  unfold blank? at h
  split at h
  · rename_i hc
    obtain ⟨run, rest, rfl, hrun, hin, hout⟩ := exists_run Text.isBlank s
    rw [hrun] at h
    exact ⟨run, rest, rfl, by simpa using h, .blank (by simp) (by simpa using ⟨hc, hin⟩) hout⟩
  · simp at h

/-! ### Rules that find nothing -/

theorem comment?_eq_none_iff {c : Char} {s : List Char} :
    comment? c s = none ↔ (c = '/' → s.head? ≠ some '/' ∧ s.head? ≠ some '*') := by
  unfold comment?
  by_cases hc : c = '/'
  · simp only [hc, ↓reduceIte, forall_const]
    split
    · simp
    · simp
    · rename_i hline hblock
      cases s with
      | nil => simp
      | cons d s =>
        simp only [List.head?_cons, ne_eq, Option.some.injEq, true_iff]
        exact ⟨fun hd => hline s (by rw [hd]), fun hd => hblock s (by rw [hd])⟩
  · simp [hc]

theorem number?_eq_none_iff {c : Char} {s : List Char} : number? c s = none ↔ ¬ c.isDigit := by
  unfold number?
  dsimp only
  split
  · rename_i hc
    split
    · split <;> simp [hc]
    · simp [hc]
  · rename_i hc
    simp [hc]

theorem operator?_eq_none_iff {c : Char} {s : List Char} :
    operator? c s = none ↔ ∀ op ∈ operators, ¬ op <+: c :: s := by
  rw [operator?, Option.map_eq_none_iff, List.find?_eq_none]
  simp only [List.isPrefixOf_iff_prefix]

/-! ### All rules -/

/-- A rule of the lexer finds a piece exactly if its relation takes the piece. -/
theorem rule_eq_some_iff {cls : LexemeClass} {c : Char} {s : List Char} {n : Nat} :
    rule cls c s = some n ↔ ∃ t rest, s = t ++ rest ∧ t.length = n ∧ Takes cls (c :: t) rest := by
  constructor
  · intro h
    cases cls with
    | comment => exact takes_of_comment? h
    | string => exact takes_of_string? h
    | word => exact takes_of_word? h
    | number => exact takes_of_number? h
    | operator => exact takes_of_operator? h
    | punctuation => exact takes_of_punctuation? h
    | blank => exact takes_of_blank? h
    | other => exact ⟨[], s, rfl, by simpa [rule] using h, .other⟩
  · rintro ⟨t, rest, rfl, rfl, h⟩
    cases cls with
    | comment => exact comment?_of_takes h
    | string => exact string?_of_takes h
    | word => exact word?_of_takes h
    | number => exact number?_of_takes h
    | operator => exact operator?_of_takes h
    | punctuation => exact punctuation?_of_takes h
    | blank => exact blank?_of_takes h
    | other => cases h; rfl

theorem rule_eq_none_iff {cls : LexemeClass} {c : Char} {s : List Char} :
    rule cls c s = none ↔ ∀ piece rest, piece ++ rest = c :: s → ¬ Takes cls piece rest := by
  constructor
  · rintro h piece rest hs ht
    obtain ⟨d, t, rfl⟩ := List.exists_cons_of_ne_nil ht.ne_nil
    obtain ⟨rfl, rfl⟩ : d = c ∧ t ++ rest = s := by simpa using hs
    have := rule_eq_some_iff.2 ⟨t, rest, rfl, rfl, ht⟩
    simp [h] at this
  · intro h
    cases hr : rule cls c s with
    | none => rfl
    | some n =>
      obtain ⟨t, rest, rfl, -, ht⟩ := rule_eq_some_iff.1 hr
      exact absurd ht (h _ _ rfl)

end Lexeme

end Semblance
