import Mathlib.Data.List.Infix
import Mathlib.InformationTheory.Coding.UniquelyDecodable

/-!
# Texts that split into words in one way

A text written as a sequence of words without separators may split in a second way only if reading both ways along
each other leaves something over: the part by which one word is longer than the other, then the part by which this is
longer or shorter than the next word, and so on.  If a finite list has everything that can be left over, and nothing
in it is ever used up exactly, then no text splits in two ways (`IsLeftover.uniquelyDecodable`).
-/

namespace Semblance

open InformationTheory

variable {α : Type} {words tails : List (List α)}

/-- The list `tails` has everything that can be left over when two sequences of words are read along each other, and
the empty list is not among them. -/
structure IsLeftover (words tails : List (List α)) : Prop where
  nil_notMem_words : [] ∉ words
  nil_notMem_tails : [] ∉ tails
  of_words : ∀ w ∈ words, ∀ v ∈ words, w ≠ v → w <+: v → v.drop w.length ∈ tails
  of_tail_prefix : ∀ t ∈ tails, ∀ w ∈ words, t <+: w → w.drop t.length ∈ tails
  of_word_prefix : ∀ t ∈ tails, ∀ w ∈ words, w <+: t → t.drop w.length ∈ tails

namespace IsLeftover

/-- Of two ways to start a list one continues the other. -/
private theorem exists_append_of_append_eq {a b s t : List α} (h : a ++ s = b ++ t) :
    (a <+: b ∧ s = b.drop a.length ++ t) ∨ (b <+: a ∧ a.drop b.length ++ s = t) := by
  rcases List.append_eq_append_iff.1 h with ⟨u, rfl, rfl⟩ | ⟨u, rfl, rfl⟩
  · left
    rw [List.drop_left]
    exact ⟨List.prefix_append a u, rfl⟩
  · right
    rw [List.drop_left]
    exact ⟨List.prefix_append b u, rfl⟩

/-- What is left over on one side is never made up for by the words that follow. -/
theorem append_flatten_ne (h : IsLeftover words tails) {t : List α} (ht : t ∈ tails) {ws vs : List (List α)}
    (hws : ∀ w ∈ ws, w ∈ words) (hvs : ∀ v ∈ vs, v ∈ words) : t ++ ws.flatten ≠ vs.flatten := by
  -- each step takes a word from one side, and the sides change places when the word is longer than what was left over
  induction hn : ws.length + vs.length using Nat.strong_induction_on generalizing t ws vs with
  | _ n ih =>
    intro heq
    cases vs with
    | nil =>
      have hnil : t = [] := (List.append_eq_nil_iff.1 heq).1
      exact h.nil_notMem_tails (hnil ▸ ht)
    | cons v vs =>
      have hv : v ∈ words := hvs v (by simp)
      have hvs' : ∀ w ∈ vs, w ∈ words := fun w hw => hvs w (List.mem_cons_of_mem v hw)
      rw [List.length_cons] at hn
      rw [List.flatten_cons] at heq
      rcases exists_append_of_append_eq heq with ⟨hpre, hrest⟩ | ⟨hpre, hrest⟩
      · have htail := h.of_tail_prefix t ht v hv hpre
        exact ih (vs.length + ws.length) (by omega) htail hvs' hws rfl hrest.symm
      · have htail := h.of_word_prefix t ht v hv hpre
        exact ih (ws.length + vs.length) (by omega) htail hws hvs' rfl hrest

theorem uniquelyDecodable (h : IsLeftover words tails) : UniquelyDecodable {w | w ∈ words} := by
  intro ws vs hws hvs heq
  induction ws generalizing vs with
  | nil =>
    cases vs with
    | nil => rfl
    | cons v vs =>
      have hnil : v = [] := (List.append_eq_nil_iff.1 heq.symm).1
      exact absurd (hvs v (by simp)) (hnil ▸ h.nil_notMem_words)
  | cons w ws ih =>
    have hw : w ∈ words := hws w (by simp)
    have hws' : ∀ u ∈ ws, u ∈ words := fun u hu => hws u (List.mem_cons_of_mem w hu)
    cases vs with
    | nil =>
      have hnil : w = [] := (List.append_eq_nil_iff.1 heq).1
      exact absurd hw (hnil ▸ h.nil_notMem_words)
    | cons v vs =>
      have hv : v ∈ words := hvs v (by simp)
      have hvs' : ∀ u ∈ vs, u ∈ words := fun u hu => hvs u (List.mem_cons_of_mem v hu)
      rw [List.flatten_cons, List.flatten_cons] at heq
      by_cases hwv : w = v
      · subst hwv
        rw [ih vs hws' hvs' (List.append_cancel_left heq)]
      · -- the longer of two different first words leaves something over
        rcases exists_append_of_append_eq heq with ⟨hpre, hrest⟩ | ⟨hpre, hrest⟩
        · have htail := h.of_words w hw v hv hwv hpre
          exact absurd hrest.symm (h.append_flatten_ne htail hvs' hws')
        · have htail := h.of_words v hv w hw (Ne.symm hwv) hpre
          exact absurd hrest (h.append_flatten_ne htail hws' hvs')

end IsLeftover

end Semblance
