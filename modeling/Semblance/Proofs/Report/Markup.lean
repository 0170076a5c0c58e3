import Mathlib.Data.List.Infix
import Semblance.Text.Markup

/-!
# Text in markup

A text that is put into markup has no character that could open or close anything (`marks_markup`), and it can be read
back (`unescape_markup`).  Only such characters count in a search for a tag: the search passes over every text without
them (`avoids_of_marks_eq_nil`), and over a row of texts if it passes over each of them (`Avoids.append`).
-/

namespace Semblance.Text

/-! ### Marks -/

/-- The characters that open and close tags and the values of attributes. -/
def markChars : List Char :=
  ['<', '>', '"', '\'']

/-- What is left of a text if only its angle brackets and quotes are kept. -/
def marks (s : List Char) : List Char :=
  s.filter (· ∈ markChars)

@[simp] theorem marks_nil : marks [] = [] := rfl

@[simp] theorem marks_append (s t : List Char) : marks (s ++ t) = marks s ++ marks t :=
  List.filter_append ..

theorem marks_flatMap {α : Type} (f : α → List Char) (items : List α) :
    marks (items.flatMap f) = items.flatMap fun a => marks (f a) := by
  induction items with
  | nil => rfl
  | cons a items ih => rw [List.flatMap_cons, List.flatMap_cons, marks_append, ih]

theorem marks_eq_nil_iff {s : List Char} : marks s = [] ↔ ∀ c ∈ s, c ∉ markChars := by
  simp [marks, List.filter_eq_nil_iff]

theorem not_mem_of_marks_eq_nil {s : List Char} (h : marks s = []) {c : Char} (hc : c ∈ markChars) : c ∉ s :=
  fun hmem => marks_eq_nil_iff.1 h c hmem hc

theorem marks_entity (c : Char) : marks (entity c) = [] := by
  unfold entity
  split_ifs with hamp hlt hgt hdouble hsingle
  all_goals try decide
  rw [marks_eq_nil_iff]
  simp [markChars, hlt, hgt, hdouble, hsingle]

@[simp] theorem marks_markup (text : String) : marks (markup text).toList = [] := by
  rw [markup, String.toList_ofList, marks_flatMap]
  simp [marks_entity]

theorem marks_repr_nat (n : Nat) : marks n.repr.toList = [] := by
  rw [marks_eq_nil_iff, Nat.repr_eq_ofList_toDigits, String.toList_ofList]
  intro c hc hmark
  have hdigit : c.isDigit := Nat.isDigit_of_mem_toDigits (Nat.succ_pos 9) le_rfl hc
  have hnone : ∀ c ∈ markChars, ¬ c.isDigit := by simp [markChars, Char.isDigit]
  exact hnone c hmark hdigit

theorem marks_repr_int (n : Int) : marks n.repr.toList = [] := by
  have hsign : marks "-".toList = [] := by decide
  rw [Int.repr_eq_if]
  split
  · rw [marks_repr_nat]
  · rw [String.toList_append, marks_append, hsign, marks_repr_nat, List.append_nil]

/-! ### Taking entities back -/

/-- A text with its entities taken back. -/
def unescape : List Char → List Char
  | '&' :: 'a' :: 'm' :: 'p' :: ';' :: rest => '&' :: unescape rest
  | '&' :: 'l' :: 't' :: ';' :: rest => '<' :: unescape rest
  | '&' :: 'g' :: 't' :: ';' :: rest => '>' :: unescape rest
  | '&' :: 'q' :: 'u' :: 'o' :: 't' :: ';' :: rest => '"' :: unescape rest
  | '&' :: '#' :: 'x' :: '2' :: '7' :: ';' :: rest => '\'' :: unescape rest
  | c :: rest => c :: unescape rest
  | [] => []

theorem unescape_cons {c : Char} (h : c ≠ '&') (rest : List Char) : unescape (c :: rest) = c :: unescape rest := by
  rw [unescape]
  all_goals
    intros
    contradiction

theorem unescape_entity (c : Char) (rest : List Char) : unescape (entity c ++ rest) = c :: unescape rest := by
  unfold entity
  split_ifs with hamp hlt hgt hdouble hsingle
  case neg => exact unescape_cons hamp rest
  all_goals
    subst c
    rfl

/-- A text is read back from its markup. -/
theorem unescape_markup (text : String) : unescape (markup text).toList = text.toList := by
  rw [markup, String.toList_ofList]
  induction text.toList with
  | nil => rfl
  | cons c cs ih => rw [List.flatMap_cons, unescape_entity, ih]

/-! ### Searching for a tag -/

/-- A search for a tag passes over a text: the tag does not occur in it, and does not begin at its end either. -/
def Avoids (tag s : List Char) : Prop :=
  ∀ t ∈ s.tails, t ≠ [] → ¬ tag <+: t ∧ ¬ t <+: tag

instance (tag s : List Char) : Decidable (Avoids tag s) :=
  inferInstanceAs (Decidable (∀ t ∈ s.tails, _))

theorem avoids_nil (tag : List Char) : Avoids tag [] := by
  simp [Avoids]

theorem avoids_cons {tag s : List Char} {c : Char} :
    Avoids tag (c :: s) ↔ (¬ tag <+: c :: s ∧ ¬ c :: s <+: tag) ∧ Avoids tag s := by
  simp [Avoids, List.tails]

variable {tag s t : List Char}

theorem Avoids.append (hs : Avoids tag s) (ht : Avoids tag t) : Avoids tag (s ++ t) := by
  induction s with
  | nil => exact ht
  | cons c s ih =>
    obtain ⟨⟨hin, hout⟩, hrest⟩ := avoids_cons.1 hs
    refine avoids_cons.2 ⟨⟨fun h => ?_, fun h => ?_⟩, ih hrest⟩
    · rcases List.prefix_or_prefix_of_prefix h (List.prefix_append (c :: s) t) with h | h
      · exact hin h
      · exact hout h
    · exact hout ((List.prefix_append (c :: s) t).trans h)

theorem avoids_flatMap {α : Type} {f : α → List Char} {items : List α} (h : ∀ a ∈ items, Avoids tag (f a)) :
    Avoids tag (items.flatMap f) := by
  induction items with
  | nil => exact avoids_nil tag
  | cons a items ih =>
    rw [List.forall_mem_cons] at h
    exact h.1.append (ih h.2)

/-- A search for a longer tag passes over at least as much. -/
theorem Avoids.of_append (h : Avoids tag s) (more : List Char) : Avoids (tag ++ more) s := by
  intro t ht hne
  obtain ⟨hin, hout⟩ := h t ht hne
  refine ⟨fun hp => hin ((List.prefix_append tag more).trans hp), fun hp => ?_⟩
  rcases List.prefix_or_prefix_of_prefix hp (List.prefix_append tag more) with hp | hp
  · exact hout hp
  · exact hin hp

theorem avoids_of_not_mem {c : Char} {name : List Char} (h : c ∉ s) : Avoids (c :: name) s := by
  intro t ht hne
  obtain ⟨d, t, rfl⟩ := List.exists_cons_of_ne_nil hne
  have hd : c ≠ d := fun hcd => h (((List.mem_tails _ s).1 ht).subset (hcd ▸ List.mem_cons_self))
  exact ⟨fun hp => hd (List.cons_prefix_cons.1 hp).1, fun hp => hd (List.cons_prefix_cons.1 hp).1.symm⟩

theorem avoids_of_marks_eq_nil {name : List Char} (h : marks s = []) : Avoids ('<' :: name) s :=
  avoids_of_not_mem (not_mem_of_marks_eq_nil h (by decide))

theorem avoids_ofList (h : Avoids tag s) : Avoids tag (String.ofList s).toList := by
  rwa [String.toList_ofList]

/-- A search for a tag passes over the same tag with another value. -/
theorem avoids_of_value_ne {name value value' : List Char} (hname : '<' ∉ name) (hv : marks value = [])
    (hv' : marks value' = []) (hne : value ≠ value') :
    Avoids ('<' :: name ++ value ++ ['"']) ('<' :: name ++ value' ++ ['"']) := by
  have hquote {s : List Char} (hs : marks s = []) (t : List Char) :
      (s ++ '"' :: t).takeWhile (· ≠ '"') = s := by
    have hplain : ∀ c ∈ s, decide (c ≠ '"') := by
      intro c hc
      apply decide_eq_true
      rintro rfl
      exact not_mem_of_marks_eq_nil hs (by decide) hc
    rw [List.takeWhile_append_of_pos hplain]
    simp
  have hclash {s s' : List Char} (hs : marks s = []) (hs' : marks s' = [])
      (h : '<' :: name ++ s ++ ['"'] <+: '<' :: name ++ s' ++ ['"']) : s = s' := by
    rw [List.append_assoc, List.append_assoc, List.prefix_append_right_inj] at h
    obtain ⟨t, ht⟩ := h
    rw [← hquote hs t, ← hquote hs' [], ← ht, List.append_assoc]
    rfl
  have hvalue : '<' ∉ value' := not_mem_of_marks_eq_nil hv' (by decide)
  refine avoids_cons.2 ⟨⟨fun h => hne (hclash hv hv' h), fun h => hne (hclash hv' hv h).symm⟩, avoids_of_not_mem ?_⟩
  simp [hname, hvalue]

/-- The first place of a tag is not within a text that a search for it passes over. -/
theorem Avoids.length_le {before after : List Char} (h : Avoids tag s)
    (heq : s ++ tag ++ t = before ++ tag ++ after) : s.length ≤ before.length := by
  induction s generalizing before with
  | nil => exact Nat.zero_le _
  | cons c s ih =>
    obtain ⟨⟨hin, hout⟩, hrest⟩ := avoids_cons.1 h
    cases before with
    | nil =>
      -- both the tag and the text start the same list
      have htag : tag <+: c :: s ++ tag ++ t := heq ▸ List.prefix_append tag after
      have hs : c :: s <+: c :: s ++ tag ++ t := List.append_assoc .. ▸ List.prefix_append (c :: s) (tag ++ t)
      rcases List.prefix_or_prefix_of_prefix htag hs with h | h
      · exact absurd h hin
      · exact absurd h hout
    | cons d before => exact Nat.succ_le_succ (ih hrest (List.cons.inj heq).2)

/-- A search stops at a tag after a text that it passes over. -/
theorem dropInfix?_of_avoids (h : Avoids tag s) : (s ++ tag ++ t).dropInfix? tag = some (s, t) := by
  rw [List.dropInfix?_eq_some_iff]
  refine ⟨⟨tag, rfl, by simp⟩, fun before found after heq hfound => ?_⟩
  obtain rfl : found = tag := by simpa using hfound
  exact h.length_le heq

end Semblance.Text
