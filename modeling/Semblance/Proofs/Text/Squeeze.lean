import Mathlib.Data.List.DropRight
import Semblance.Text.Blank

/-!
# Squeezed texts

`squeeze` makes each run of white space one space and leaves none at the end.  Two texts with one squeezed form have
the same solid characters (those that are no white space) in the same order, and white space between the same ones.
So a place in one of them has its counterpart in the other: a solid character (`exists_of_squeeze_cons`), the white
space before it (`exists_of_squeeze_blank`), or a border at a solid character (`exists_of_squeeze_border`).

A normal form is a squeezed form without the white space in front (`trim_collapse`).  Texts with one normal form still
have one after the first so many solid characters (`normal_dropSolid`).
-/

namespace Semblance.Text

/-- A text with a space in front if it starts with a solid character. -/
def spaced : List Char → List Char
  | [] => []
  | c :: s => if isBlank c then c :: s else ' ' :: c :: s

/-- The text with each run of white space made one space and none at the end. -/
def squeeze : List Char → List Char
  | [] => []
  | c :: s => if isBlank c then spaced (squeeze s) else c :: squeeze s

@[simp] theorem squeeze_nil : squeeze [] = [] := rfl

theorem squeeze_cons_of_isBlank {c : Char} (h : isBlank c) (s : List Char) :
    squeeze (c :: s) = spaced (squeeze s) := by
  rw [squeeze, if_pos h]

theorem squeeze_cons {c : Char} (h : isBlank c = false) (s : List Char) : squeeze (c :: s) = c :: squeeze s := by
  rw [squeeze, if_neg (by simp [h])]

theorem spaced_cons_of_isBlank {c : Char} (h : isBlank c) (s : List Char) : spaced (c :: s) = c :: s := by
  rw [spaced, if_pos h]

theorem spaced_cons {c : Char} (h : isBlank c = false) (s : List Char) : spaced (c :: s) = ' ' :: c :: s := by
  rw [spaced, if_neg (by simp [h])]

theorem spaced_eq_nil_iff {s : List Char} : spaced s = [] ↔ s = [] := by
  cases s with
  | nil => simp [spaced]
  | cons c s =>
    by_cases hc : isBlank c
    · simp [spaced_cons_of_isBlank hc]
    · simp [spaced_cons (by simpa using hc)]

/-- What has been spaced starts with no solid character. -/
theorem spaced_ne_cons {c : Char} (h : isBlank c = false) (s t : List Char) : spaced t ≠ c :: s := by
  intro he
  cases t with
  | nil => simp [spaced] at he
  | cons d t =>
    by_cases hd : isBlank d
    · rw [spaced_cons_of_isBlank hd] at he
      obtain ⟨rfl, -⟩ := List.cons.inj he
      simp [hd] at h
    · rw [spaced_cons (by simpa using hd)] at he
      obtain ⟨rfl, -⟩ := List.cons.inj he
      exact absurd h (by decide)

theorem spaced_append {s : List Char} (h : s ≠ []) (t : List Char) : spaced (s ++ t) = spaced s ++ t := by
  obtain ⟨c, s, rfl⟩ := List.exists_cons_of_ne_nil h
  rw [List.cons_append, spaced, spaced]
  split <;> rfl

theorem dropWhile_spaced (s : List Char) : (spaced s).dropWhile isBlank = s.dropWhile isBlank := by
  cases s with
  | nil => rfl
  | cons c s =>
    by_cases hc : isBlank c
    · rw [spaced_cons_of_isBlank hc]
    · rw [spaced_cons (by simpa using hc), List.dropWhile_cons_of_pos (by decide)]

theorem spaced_spaced (s : List Char) : spaced (spaced s) = spaced s := by
  cases s with
  | nil => rfl
  | cons c s =>
    by_cases hc : isBlank c
    · rw [spaced_cons_of_isBlank hc, spaced_cons_of_isBlank hc]
    · rw [spaced_cons (by simpa using hc), spaced_cons_of_isBlank (by decide)]

/-! ### Squeezing -/

theorem squeeze_eq_nil_iff {s : List Char} : squeeze s = [] ↔ ∀ c ∈ s, isBlank c := by
  induction s with
  | nil => simp
  | cons c s ih =>
    by_cases hc : isBlank c
    · rw [squeeze_cons_of_isBlank hc, spaced_eq_nil_iff, ih]
      simp [hc]
    · rw [squeeze_cons (by simpa using hc)]
      simp [hc]

theorem squeeze_dropWhile (s : List Char) : squeeze (s.dropWhile isBlank) = (squeeze s).dropWhile isBlank := by
  induction s with
  | nil => rfl
  | cons c s ih =>
    by_cases hc : isBlank c
    · rw [List.dropWhile_cons_of_pos hc, squeeze_cons_of_isBlank hc, dropWhile_spaced, ih]
    · have hb : isBlank c = false := by simpa using hc
      rw [List.dropWhile_cons_of_neg hc, squeeze_cons hb, List.dropWhile_cons_of_neg hc]

/-- What stands in front of two texts does not change whether they have one squeezed form. -/
theorem squeeze_append_congr (u : List Char) {s t : List Char} (h : squeeze s = squeeze t) :
    squeeze (u ++ s) = squeeze (u ++ t) := by
  induction u with
  | nil => exact h
  | cons c u ih => rw [List.cons_append, List.cons_append, squeeze, squeeze, ih]

/-- White space after white space changes nothing. -/
theorem squeeze_cons_append_of_isBlank {c : Char} (hc : isBlank c) {w : List Char} (hw : ∀ d ∈ w, isBlank d)
    (s : List Char) : squeeze (c :: (w ++ s)) = squeeze (c :: s) := by
  induction w with
  | nil => rfl
  | cons d w ih =>
    rw [← ih fun e he => hw e (.tail _ he), squeeze_cons_of_isBlank hc, squeeze_cons_of_isBlank hc, List.cons_append,
      squeeze_cons_of_isBlank (hw d (by simp)), spaced_spaced]

theorem squeeze_append_of_isBlank (s : List Char) {w : List Char} (hw : ∀ d ∈ w, isBlank d) :
    squeeze (s ++ w) = squeeze s := by
  have hnil : squeeze w = squeeze [] := squeeze_eq_nil_iff.2 hw
  rw [squeeze_append_congr s hnil, List.append_nil]

/-- At a solid character the two sides are squeezed by themselves. -/
theorem squeeze_append_cons (u : List Char) {c : Char} (hc : isBlank c = false) (s : List Char) :
    squeeze (u ++ c :: s) = squeeze (u ++ [c]) ++ squeeze s := by
  induction u with
  | nil => simp [squeeze_cons hc]
  | cons d u ih =>
    rw [List.cons_append, List.cons_append]
    by_cases hd : isBlank d
    · have hne : squeeze (u ++ [c]) ≠ [] := by
        rw [Ne, squeeze_eq_nil_iff]
        intro hall
        have := hall c (by simp)
        simp [hc] at this
      rw [squeeze_cons_of_isBlank hd, squeeze_cons_of_isBlank hd, ih, spaced_append hne]
    · have hb : isBlank d = false := by simpa using hd
      rw [squeeze_cons hb, squeeze_cons hb, ih, List.cons_append]

/-! ### Counterparts -/

theorem exists_of_squeeze_cons {c : Char} (hc : isBlank c = false) {s t : List Char}
    (h : squeeze (c :: s) = squeeze t) : ∃ t', t = c :: t' ∧ squeeze s = squeeze t' := by
  rw [squeeze_cons hc] at h
  cases t with
  | nil => simp at h
  | cons d t =>
    by_cases hd : isBlank d
    · rw [squeeze_cons_of_isBlank hd] at h
      exact absurd h.symm (spaced_ne_cons hc _ _)
    · rw [squeeze_cons (by simpa using hd)] at h
      obtain ⟨rfl, hs⟩ := List.cons.inj h
      exact ⟨t, rfl, hs⟩

theorem exists_of_squeeze_append {u : List Char} (hu : ∀ c ∈ u, isBlank c = false) {s t : List Char}
    (h : squeeze (u ++ s) = squeeze t) : ∃ t', t = u ++ t' ∧ squeeze s = squeeze t' := by
  induction u generalizing t with
  | nil => exact ⟨t, rfl, h⟩
  | cons c u ih =>
    obtain ⟨t, rfl, ht⟩ := exists_of_squeeze_cons (hu c (by simp)) h
    obtain ⟨t', rfl, ht'⟩ := ih (fun d hd => hu d (.tail _ hd)) ht
    exact ⟨t', rfl, ht'⟩

/-- White space in front has its counterpart in white space in front, which may be none if more white space follows. -/
theorem exists_of_squeeze_blank {c : Char} (hc : isBlank c) {s t : List Char} (h : squeeze (c :: s) = squeeze t) :
    ∃ w t', t = w ++ t' ∧ (∀ d ∈ w, isBlank d) ∧ squeeze s = squeeze t' := by
  rw [squeeze_cons_of_isBlank hc] at h
  have hsplit : t.takeWhile isBlank ++ t.dropWhile isBlank = t := List.takeWhile_append_dropWhile
  cases hs : squeeze s with
  | nil =>
    rw [hs] at h
    exact ⟨[], t, rfl, by simp, h⟩
  | cons d r =>
    rw [hs] at h
    by_cases hd : isBlank d
    · rw [spaced_cons_of_isBlank hd] at h
      exact ⟨[], t, rfl, by simp, h⟩
    · refine ⟨t.takeWhile isBlank, t.dropWhile isBlank, hsplit.symm, fun e he => List.mem_takeWhile_imp he, ?_⟩
      rw [squeeze_dropWhile, ← h, dropWhile_spaced, List.dropWhile_cons_of_neg hd]

theorem isBlank_head_of_squeeze {c d : Char} (hc : isBlank c) {s t : List Char}
    (h : squeeze (c :: s) = squeeze (d :: t)) : isBlank d := by
  by_contra hd
  rw [squeeze_cons_of_isBlank hc, squeeze_cons (by simpa using hd)] at h
  exact spaced_ne_cons (by simpa using hd) _ _ h

/-- A border at a solid character has its counterpart, with one squeezed form on either side. -/
theorem exists_of_squeeze_border {u s t : List Char} {c : Char} (hc : isBlank c = false)
    (h : squeeze (u ++ c :: s) = squeeze t) :
    ∃ u' t', t = u' ++ c :: t' ∧ squeeze (u ++ [c]) = squeeze (u' ++ [c]) ∧ squeeze s = squeeze t' := by
  have hsplit : ∃ u' t', t = u' ++ c :: t' ∧ squeeze s = squeeze t' := by
    induction u generalizing t with
    | nil =>
      obtain ⟨t', rfl, ht⟩ := exists_of_squeeze_cons hc h
      exact ⟨[], t', rfl, ht⟩
    | cons d u ih =>
      by_cases hd : isBlank d
      · obtain ⟨w, t', rfl, -, ht⟩ := exists_of_squeeze_blank hd h
        obtain ⟨u', t'', rfl, hs⟩ := ih ht
        exact ⟨w ++ u', t'', by simp, hs⟩
      · obtain ⟨t', rfl, ht⟩ := exists_of_squeeze_cons (by simpa using hd) h
        obtain ⟨u', t'', rfl, hs⟩ := ih ht
        exact ⟨d :: u', t'', rfl, hs⟩
  obtain ⟨u', t', rfl, hs⟩ := hsplit
  refine ⟨u', t', rfl, ?_, hs⟩
  rw [squeeze_append_cons u hc, squeeze_append_cons u' hc, hs] at h
  exact List.append_cancel_right h

theorem head?_of_squeeze {s t : List Char} (h : squeeze s = squeeze t) {c : Char} (hc : isBlank c = false)
    (ht : t.head? = some c) : s.head? = some c := by
  obtain ⟨t, rfl⟩ := List.head?_eq_some_iff.1 ht
  obtain ⟨s, rfl, -⟩ := exists_of_squeeze_cons hc h.symm
  rfl

theorem isPrefix_of_squeeze {s t : List Char} (h : squeeze s = squeeze t) {u : List Char}
    (hu : ∀ c ∈ u, isBlank c = false) (ht : u <+: t) : u <+: s := by
  obtain ⟨t, rfl⟩ := ht
  obtain ⟨s, rfl, -⟩ := exists_of_squeeze_append hu h.symm
  exact List.prefix_append u s

/-! ### Solid characters -/

/-- The number of solid characters. -/
def solidCount (s : List Char) : Nat :=
  s.countP (!isBlank ·)

/-- The text after its first `n` solid characters, from the next solid character on. -/
def dropSolid : Nat → List Char → List Char
  | 0, s => s.dropWhile isBlank
  | n + 1, s =>
    match s.dropWhile isBlank with
    | [] => []
    | _ :: t => dropSolid n t

theorem dropSolid_cons_of_isBlank {c : Char} (h : isBlank c) (n : Nat) (s : List Char) :
    dropSolid n (c :: s) = dropSolid n s := by
  cases n with
  | zero => rw [dropSolid, dropSolid, List.dropWhile_cons_of_pos h]
  | succ n => rw [dropSolid, dropSolid, List.dropWhile_cons_of_pos h]

theorem dropSolid_succ_cons {c : Char} (h : isBlank c = false) (n : Nat) (s : List Char) :
    dropSolid (n + 1) (c :: s) = dropSolid n s := by
  rw [dropSolid, List.dropWhile_cons_of_neg (by simp [h])]

/-- Dropping goes on behind a part with its own number of solid characters. -/
theorem dropSolid_append (u : List Char) (n : Nat) (s : List Char) :
    dropSolid (solidCount u + n) (u ++ s) = dropSolid n s := by
  induction u with
  | nil => rw [solidCount, List.countP_nil, Nat.zero_add, List.nil_append]
  | cons c u ih =>
    rw [List.cons_append]
    by_cases hc : isBlank c
    · have hcount : solidCount (c :: u) = solidCount u := List.countP_cons_of_neg (by simp [hc])
      rw [hcount, dropSolid_cons_of_isBlank hc, ih]
    · have hb : isBlank c = false := by simpa using hc
      have hcount : solidCount (c :: u) = solidCount u + 1 := List.countP_cons_of_pos (by simp [hc])
      rw [hcount, Nat.add_right_comm, dropSolid_succ_cons hb, ih]

theorem length_dropSolid_le (n : Nat) (s : List Char) : (dropSolid n s).length ≤ s.length := by
  induction n generalizing s with
  | zero => exact (List.dropWhile_suffix _).length_le
  | succ n ih =>
    have hlen : (s.dropWhile isBlank).length ≤ s.length := (List.dropWhile_suffix _).length_le
    rw [dropSolid]
    split
    · simp
    · rename_i c t ht
      have := ih t
      rw [ht, List.length_cons] at hlen
      omega

/-! ### Normal forms -/

theorem collapse_cons_of_isBlank {c : Char} (h : isBlank c) (s : List Char) :
    collapse (c :: s) = if (collapse s).head? = some ' ' then collapse s else ' ' :: collapse s := by
  unfold collapse
  rw [List.foldr_cons, if_pos h]

/-- White space in front of a collapsed text is a space. -/
theorem eq_space_of_head?_collapse {s : List Char} {c : Char} (hc : (collapse s).head? = some c) (hb : isBlank c) :
    c = ' ' := by
  induction s with
  | nil => simp at hc
  | cons d s ih =>
    by_cases hd : isBlank d
    · rw [collapse_cons_of_isBlank hd] at hc
      split at hc
      · exact ih hc
      · simpa using hc.symm
    · rw [collapse_cons_of_not_isBlank s (by simpa using hd)] at hc
      obtain rfl : d = c := by simpa using hc
      exact absurd hb hd

theorem rdropWhile_cons_of_solid {c : Char} (h : isBlank c = false) (s : List Char) :
    (c :: s).rdropWhile isBlank = c :: s.rdropWhile isBlank := by
  rw [List.rdropWhile, List.reverse_cons, List.dropWhile_append]
  split
  · rename_i hs
    have hnil : s.reverse.dropWhile isBlank = [] := List.isEmpty_iff.1 hs
    rw [List.rdropWhile, hnil, List.dropWhile_cons_of_neg (by simp [h])]
    rfl
  · rw [List.rdropWhile, List.reverse_append, List.reverse_singleton, List.singleton_append]

theorem rdropWhile_cons_of_isBlank {c : Char} (h : isBlank c) (s : List Char) :
    (c :: s).rdropWhile isBlank = if s.rdropWhile isBlank = [] then [] else c :: s.rdropWhile isBlank := by
  rw [List.rdropWhile, List.reverse_cons, List.dropWhile_append]
  split
  · rename_i hs
    have hnil : s.reverse.dropWhile isBlank = [] := List.isEmpty_iff.1 hs
    rw [List.rdropWhile, hnil, List.dropWhile_cons_of_pos h]
    rfl
  · rename_i hs
    rw [List.rdropWhile, List.reverse_append, List.reverse_singleton, List.singleton_append, if_neg]
    simpa using hs

theorem rdropWhile_collapse (s : List Char) : (collapse s).rdropWhile isBlank = squeeze s := by
  induction s with
  | nil => rfl
  | cons c s ih =>
    by_cases hc : isBlank c
    · -- a character in front of the squeezed text is in front of the collapsed text too
      have hhead {d : Char} {r : List Char} (hr : squeeze s = d :: r) : (collapse s).head? = some d := by
        obtain ⟨rest, hrest⟩ := List.rdropWhile_prefix isBlank (l := collapse s)
        rw [← hrest, ih, hr]
        rfl
      rw [collapse_cons_of_isBlank hc, squeeze_cons_of_isBlank hc]
      split
      · rename_i hspace
        rw [ih]
        cases hr : squeeze s with
        | nil => rfl
        | cons d r =>
          obtain rfl : d = ' ' := Option.some.inj ((hhead hr).symm.trans hspace)
          rw [spaced_cons_of_isBlank (by decide)]
      · rename_i hspace
        rw [rdropWhile_cons_of_isBlank (by decide), ih]
        cases hr : squeeze s with
        | nil => rfl
        | cons d r =>
          have hd : isBlank d = false := by
            by_contra hd
            have heq := eq_space_of_head?_collapse (hhead hr) (by simpa using hd)
            exact hspace (heq ▸ hhead hr)
          rw [spaced_cons hd, if_neg (List.cons_ne_nil d r)]
    · have hb : isBlank c = false := by simpa using hc
      rw [collapse_cons_of_not_isBlank s hb, rdropWhile_cons_of_solid hb, ih, squeeze_cons hb]

theorem dropWhile_collapse_cons {c : Char} (h : isBlank c) (s : List Char) :
    (collapse (c :: s)).dropWhile isBlank = (collapse s).dropWhile isBlank := by
  rw [collapse_cons_of_isBlank h]
  split
  · rfl
  · rw [List.dropWhile_cons_of_pos (by decide)]

/-- The squeezed text without white space in front. -/
def normal (s : List Char) : List Char :=
  (squeeze s).dropWhile isBlank

theorem normal_cons_of_isBlank {c : Char} (h : isBlank c) (s : List Char) : normal (c :: s) = normal s := by
  rw [normal, squeeze_cons_of_isBlank h, dropWhile_spaced, normal]

theorem normal_cons {c : Char} (h : isBlank c = false) (s : List Char) : normal (c :: s) = c :: squeeze s := by
  rw [normal, squeeze_cons h, List.dropWhile_cons_of_neg (by simp [h])]

theorem trim_collapse (s : List Char) : trim (collapse s) = normal s := by
  have htrim (t : List Char) : trim t = (t.dropWhile isBlank).rdropWhile isBlank := rfl
  induction s with
  | nil => rfl
  | cons c s ih =>
    by_cases hc : isBlank c
    · rw [htrim, dropWhile_collapse_cons hc, ← htrim, ih, normal_cons_of_isBlank hc]
    · have hb : isBlank c = false := by simpa using hc
      rw [htrim, collapse_cons_of_not_isBlank s hb, List.dropWhile_cons_of_neg hc, rdropWhile_cons_of_solid hb,
        rdropWhile_collapse, normal_cons hb]

theorem normalize_eq_iff {a b : String} : normalize a = normalize b ↔ normal a.toList = normal b.toList := by
  rw [normalize, normalize, trim_collapse, trim_collapse]
  exact ⟨fun h => String.ofList_injective h, congrArg String.ofList⟩

theorem normal_eq_of_squeeze {s t : List Char} (h : squeeze s = squeeze t) : normal s = normal t := by
  rw [normal, normal, h]

theorem normal_dropWhile (s : List Char) : normal (s.dropWhile isBlank) = normal s := by
  rw [normal, normal, squeeze_dropWhile, List.dropWhile_idempotent]

theorem normal_eq_nil_iff {s : List Char} : normal s = [] ↔ ∀ c ∈ s, isBlank c := by
  rw [normal, ← squeeze_dropWhile, squeeze_eq_nil_iff]
  constructor
  · intro h c hc
    rw [← List.takeWhile_append_dropWhile (p := isBlank) (l := s), List.mem_append] at hc
    exact hc.elim List.mem_takeWhile_imp (h c)
  · exact fun h c hc => h c ((List.dropWhile_suffix _).subset hc)

theorem normalize_eq_empty_iff {text : String} : normalize text = "" ↔ ∀ c ∈ text.toList, isBlank c := by
  rw [← normal_eq_nil_iff, ← trim_collapse]
  simp [normalize]

theorem normal_trim (s : List Char) : normal (trim s) = normal s := by
  have hend : squeeze ((s.dropWhile isBlank).rdropWhile isBlank) = squeeze (s.dropWhile isBlank) := by
    conv => rhs; rw [← List.rdropWhile_append_rtakeWhile (p := isBlank) (l := s.dropWhile isBlank)]
    exact (squeeze_append_of_isBlank _ fun c hc => List.mem_rtakeWhile_imp hc).symm
  rw [← normal_dropWhile s]
  exact normal_eq_of_squeeze hend

/-- Texts with one normal form are both blank, or start with one solid character behind their white space. -/
theorem normal_cases {s t : List Char} (h : normal s = normal t) :
    (s.dropWhile isBlank = [] ∧ t.dropWhile isBlank = []) ∨
      ∃ c s' t', isBlank c = false ∧ s.dropWhile isBlank = c :: s' ∧ t.dropWhile isBlank = c :: t' ∧
        squeeze s' = squeeze t' := by
  rw [normal, normal, ← squeeze_dropWhile, ← squeeze_dropWhile] at h
  have hsolid (u : List Char) {c : Char} {r : List Char} (hu : u.dropWhile isBlank = c :: r) : isBlank c = false := by
    have hhead := List.head?_dropWhile_not isBlank u
    rw [hu] at hhead
    simpa using hhead
  cases hs : s.dropWhile isBlank with
  | cons c s' =>
    rw [hs] at h
    obtain ⟨t', ht, hst⟩ := exists_of_squeeze_cons (hsolid s hs) h
    exact .inr ⟨c, s', t', hsolid s hs, rfl, ht, hst⟩
  | nil =>
    cases ht : t.dropWhile isBlank with
    | nil => exact .inl ⟨rfl, rfl⟩
    | cons d t' =>
      rw [hs, ht] at h
      obtain ⟨s', hs', -⟩ := exists_of_squeeze_cons (hsolid t ht) h.symm
      exact absurd hs' (List.cons_ne_nil d s').symm

/-- Texts with one normal form still have one after so many solid characters. -/
theorem normal_dropSolid {s t : List Char} (h : normal s = normal t) (n : Nat) :
    normal (dropSolid n s) = normal (dropSolid n t) := by
  induction n generalizing s t with
  | zero => rw [dropSolid, dropSolid, normal_dropWhile, normal_dropWhile, h]
  | succ n ih =>
    rw [dropSolid, dropSolid]
    rcases normal_cases h with ⟨hs, ht⟩ | ⟨c, s', t', -, hs, ht, hst⟩
    · rw [hs, ht]
    · rw [hs, ht]
      exact ih (normal_eq_of_squeeze hst)

end Semblance.Text
