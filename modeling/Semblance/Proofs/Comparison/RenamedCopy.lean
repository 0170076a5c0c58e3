import Mathlib.Data.List.Forall2
import Semblance.Comparison
import Semblance.Proofs.Lexing.Cut
import Semblance.Proofs.Number.Nearest
import Semblance.Proofs.Similarity.Sublists

/-!
# Renamed copies

A renamed copy of a program has tokens of the same classes in the same order, and the same keywords and punctuation;
names, literals, operators, comments and white space are free.  Such a copy has the signature, the skeleton and the
control flow of the program, so every phase that has anything to compare scores `100`, and a weight that a phase
without anything to compare would carry has moved to the others: the adaptive policy calls every renamed copy
plagiarized with the score `100` (`compareTexts_of_renamed`).
-/

namespace Semblance

/-- Two tokens of one class, which have the same text if they are keywords or punctuation. -/
def Token.Renames (t u : Token) : Prop :=
  t.kind = u.kind ∧ (t.isMark → t.value = u.value)

/-! ### What renaming keeps -/

namespace Token

theorem Renames.isMark_eq {t u : Token} (h : t.Renames u) : t.isMark = u.isMark := by
  rw [isMark, isMark, h.1]

theorem Renames.sign_eq {t u : Token} (h : t.Renames u) : t.sign = u.sign := by
  obtain ⟨k, v⟩ := t
  obtain ⟨k', v'⟩ := u
  obtain ⟨rfl, hv⟩ : k = k' ∧ _ := h
  cases k with
  | keyword => exact hv (by simp [isMark])
  | _ => rfl

theorem isMark_of_isControl {t : Token} (h : t.isControl) : t.isMark := by
  simp only [isControl, Bool.and_eq_true, decide_eq_true_eq] at h
  simp [isMark, h.1]

theorem Renames.isControl_eq {t u : Token} (h : t.Renames u) : t.isControl = u.isControl := by
  by_cases hm : t.isMark
  · rw [isControl, isControl, h.1, h.2 hm]
  · have hu : ¬ u.isMark := h.isMark_eq ▸ hm
    rw [Bool.eq_false_iff.2 (mt isMark_of_isControl hm), Bool.eq_false_iff.2 (mt isMark_of_isControl hu)]

end Token

variable {a b : List Token}

theorem signature_eq_of_renames (h : List.Forall₂ Token.Renames a b) : signature a = signature b := by
  induction h with
  | nil => rfl
  | cons ht _ ih => simpa [signature, ht.sign_eq] using ih

/-- Tokens that are chosen by a property that renaming keeps, and that are marks, keep their texts. -/
private theorem values_filter_eq {p : Token → Bool} (hp : ∀ t u : Token, t.Renames u → p t = p u)
    (hm : ∀ t : Token, p t → t.isMark) (h : List.Forall₂ Token.Renames a b) :
    (a.filter p).map Token.value = (b.filter p).map Token.value := by
  induction h with
  | nil => rfl
  | @cons t u a b ht _ ih =>
    rw [List.filter_cons, List.filter_cons, ← hp t u ht]
    split
    · rename_i hpt
      rw [List.map_cons, List.map_cons, ih, ht.2 (hm t hpt)]
    · exact ih

theorem skeleton_eq_of_renames (h : List.Forall₂ Token.Renames a b) : skeleton a = skeleton b := by
  rw [skeleton, skeleton, values_filter_eq (fun _ _ => Token.Renames.isMark_eq) (fun _ => id) h]

theorem controlFlow_eq_of_renames (h : List.Forall₂ Token.Renames a b) : controlFlow a = controlFlow b :=
  values_filter_eq (fun _ _ => Token.Renames.isControl_eq) (fun _ => Token.isMark_of_isControl) h

/-! ### Scores of equal signals -/

/-- Token lists with one signature score fully, unless they are empty. -/
theorem score_lexical_of_signature_eq (hs : signature a = signature b) (ha : a ≠ []) :
    (Phase.lexical a b).score = 100 := by
  have hlen : a.length = b.length := by simpa [signature] using congrArg List.length hs
  have hpos : 0 < a.length := List.length_pos_of_ne_nil ha
  obtain ⟨hsize, hle, -⟩ := windowSize_bounds hpos hpos
  have hne : distinctWindows (windowSize a.length a.length) (signature a) ≠ [] :=
    distinctWindows_ne_nil hsize (by simpa [signature] using hle)
  simp [Phase.lexical, ← hs, ← hlen, hne, overlap_self hne, percent_one]

/-- Token lists with one skeleton score fully, unless it is empty. -/
theorem score_structural_of_skeleton_eq (hs : skeleton a = skeleton b) :
    (Phase.structural a b).score = if skeleton a = "" then 0 else 100 := by
  simp only [Phase.structural, ← hs, editDistance_self, max_self, Nat.sub_zero]
  by_cases h : skeleton a = ""
  · simp [h]
  · have hne : (skeleton a).toList ≠ [] := by simpa using h
    simp [h, ratio_self (List.length_pos_of_ne_nil hne), percent_one]

/-- Token lists with one control flow score fully, unless it is empty. -/
theorem score_controlFlow_of_controlFlow_eq (hs : controlFlow a = controlFlow b) :
    (Phase.controlFlow a b).score = if controlFlow a = [] then 0 else 100 := by
  simp only [Phase.controlFlow, ← hs, commonLength_self, max_self]
  by_cases h : controlFlow a = []
  · simp [h]
  · simp [h, ratio_self (List.length_pos_of_ne_nil h), percent_one]

/-! ### Renamed copies are plagiarized -/

/-- A token list with a mark that is not empty has a skeleton. -/
theorem skeleton_ne_empty {t : Token} (ht : t ∈ a) (hm : t.isMark) (hv : t.value ≠ "") : skeleton a ≠ "" := by
  intro h
  have hjoin : (skeleton a).toList = [] := by simp [h]
  rw [skeleton, String.toList_join, List.flatMap_eq_nil_iff] at hjoin
  exact hv (by simpa using hjoin t.value (List.mem_map_of_mem (List.mem_filter.2 ⟨ht, hm⟩)))

theorem controlFlow_ne_nil {t : Token} (ht : t ∈ a) (hc : t.isControl) : controlFlow a ≠ [] :=
  List.ne_nil_of_mem (List.mem_map_of_mem (List.mem_filter.2 ⟨ht, hc⟩))

/-- Control keywords are part of the skeleton. -/
theorem controlFlow_eq_nil_of_skeleton (h : skeleton a = "") : controlFlow a = [] := by
  rw [controlFlow, List.map_eq_nil_iff, List.filter_eq_nil_iff]
  intro t ht hc
  refine skeleton_ne_empty ht (Token.isMark_of_isControl hc) ?_ h
  rintro hv
  simp only [Token.isControl, hv, Bool.and_eq_true] at hc
  exact absurd hc.2 (by decide)

/-- Phases that score fully wherever there is something to compare give the full score under the weights that the
adaptive policy takes. -/
theorem combine_adaptive_full (noSkeleton noFlow : Bool) (h : noSkeleton → noFlow) :
    Policy.adaptive.combine 100 (if noSkeleton then 0 else 100) (if noFlow then 0 else 100) noSkeleton noFlow =
      (100, .plagiarized) := by
  cases noSkeleton <;> cases noFlow
  · decide +kernel
  · decide +kernel
  · exact absurd (h rfl) (by decide)
  · decide +kernel

/-- The report on two token lists of which one is a renamed copy of the other. -/
theorem scored_adaptive_of_renames (h : List.Forall₂ Token.Renames a b) (ha : a ≠ []) (lines : List SharedLine) :
    let r := Report.scored .adaptive a b lines
    r.overall = 100 ∧ r.verdict = .plagiarized ∧ r.lexical.score = 100 ∧
      r.structural.score = (if skeleton a = "" then 0 else 100) ∧
      r.controlFlow.score = if controlFlow a = [] then 0 else 100 := by
  have hl := score_lexical_of_signature_eq (signature_eq_of_renames h) ha
  have hs := score_structural_of_skeleton_eq (skeleton_eq_of_renames h)
  have hc := score_controlFlow_of_controlFlow_eq (controlFlow_eq_of_renames h)
  have hcombine := combine_adaptive_full (skeleton a).isEmpty (controlFlow a).isEmpty
    (by simpa using controlFlow_eq_nil_of_skeleton)
  simp only [String.isEmpty_iff, List.isEmpty_iff] at hcombine
  refine ⟨?_, ?_, hl, hs, hc⟩
  · simp only [Report.scored, Policy.lexical, Policy.structural, Policy.controlFlow, hl, hs, hc, hcombine]
  · simp only [Report.scored, Policy.lexical, Policy.structural, Policy.controlFlow, hl, hs, hc, hcombine]

/-- A comparison with a renamed copy is never the comparison of an empty text. -/
theorem route_of_renames {a b : String} (ha : tokenize a ≠ [])
    (h : List.Forall₂ Token.Renames (tokenize a) (tokenize b)) :
    Route.of a b = .identical ∨ Route.of a b = .scored (tokenize a) (tokenize b) := by
  have hb : tokenize b ≠ [] := by
    intro hb
    rw [hb, List.forall₂_nil_right_iff] at h
    exact ha h
  unfold Route.of
  dsimp only
  split
  · exact .inl rfl
  · right
    rw [if_neg]
    simp [ha, hb]

/-- A renamed copy of a text with tokens is plagiarized with the score `100`, by whichever route it is compared; all
phases that have anything to compare score `100`.  The structural score is taken from the least number of edits
(`isLeast_editDistance`). -/
theorem compareTexts_of_renamed {a b : String} (ha : tokenize a ≠ [])
    (h : List.Forall₂ Token.Renames (tokenize a) (tokenize b)) :
    (compareTexts .adaptive a b).overall = 100 ∧ (compareTexts .adaptive a b).verdict = .plagiarized ∧
      (Route.of a b = .identical ∨ Route.of a b = .scored (tokenize a) (tokenize b) ∧
        (compareTexts .adaptive a b).lexical.score = 100 ∧
        ((∃ t ∈ tokenize a, t.isMark) → (compareTexts .adaptive a b).structural.score = 100) ∧
        ((∃ t ∈ tokenize a, t.isControl) → (compareTexts .adaptive a b).controlFlow.score = 100)) := by
  rcases route_of_renames ha h with hr | hr
  · simp [compareTexts, hr, Report.ofRoute, Report.uniform]
  · obtain ⟨ho, hv, hl, hs, hc⟩ := scored_adaptive_of_renames h ha (sharedLines a b)
    rw [compareTexts, hr, Report.ofRoute]
    refine ⟨ho, hv, .inr ⟨rfl, hl, ?_, ?_⟩⟩
    · rintro ⟨t, ht, hm⟩
      rw [hs, if_neg (skeleton_ne_empty ht hm (value_ne_empty_of_mem_tokenize ht))]
    · rintro ⟨t, ht, hm⟩
      rw [hc, if_neg (controlFlow_ne_nil ht hm)]

theorem compareTexts_of_renamed_loop :
    let a := "while (i < n) i += 2;"
    let b := "while (count >= max) /* down */ count -= 10;"
    (compareTexts .adaptive a b).overall = 100 ∧ (compareTexts .adaptive a b).verdict = .plagiarized := by
  intro a b
  have ha : tokenize a = [⟨.keyword, "while"⟩, ⟨.punctuation, "("⟩, ⟨.identifier, "i"⟩, ⟨.operator, "<"⟩,
      ⟨.identifier, "n"⟩, ⟨.punctuation, ")"⟩, ⟨.identifier, "i"⟩, ⟨.operator, "+="⟩, ⟨.literal, "2"⟩,
      ⟨.punctuation, ";"⟩] := by decide +kernel
  have hb : tokenize b = [⟨.keyword, "while"⟩, ⟨.punctuation, "("⟩, ⟨.identifier, "count"⟩, ⟨.operator, ">="⟩,
      ⟨.identifier, "max"⟩, ⟨.punctuation, ")"⟩, ⟨.identifier, "count"⟩, ⟨.operator, "-="⟩, ⟨.literal, "10"⟩,
      ⟨.punctuation, ";"⟩] := by decide +kernel
  have h : List.Forall₂ Token.Renames (tokenize a) (tokenize b) := by
    rw [ha, hb]
    simp [Token.Renames, Token.isMark]
  obtain ⟨ho, hv, -⟩ := compareTexts_of_renamed (by simp [ha]) h
  exact ⟨ho, hv⟩

end Semblance
