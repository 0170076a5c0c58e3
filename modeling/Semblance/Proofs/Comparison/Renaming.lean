import Semblance.Proofs.Comparison.Coherence
import Semblance.Proofs.Similarity.LinePairing

/-!
# Renamed texts

The adaptive policy sees of a program only its profile: the signs of its tokens, its skeleton and its control flow.
Renaming keeps the profile, so when both texts of a comparison are renamed the report stays the same up to the shared
lines (`compareTexts_adaptive_of_renames`).
-/

namespace Semblance

/-- What is left of a token list when the spelling of names, literals and operators does not count. -/
structure Profile where
  signs : List String
  skeleton : String
  controlFlow : List String
  deriving DecidableEq

/-- The profile of a token list. -/
def profile (tokens : List Token) : Profile :=
  ⟨signature tokens, skeleton tokens, controlFlow tokens⟩

section Profiles

variable {a a' b b' : List Token}

theorem profile_eq_of_renames (h : List.Forall₂ Token.Renames a a') : profile a = profile a' := by
  unfold profile
  rw [signature_eq_of_renames h, skeleton_eq_of_renames h, controlFlow_eq_of_renames h]

/-! ### Phases see profiles -/

namespace Phase

theorem lexical_congr (ha : signature a = signature a') (hb : signature b = signature b') :
    lexical a b = lexical a' b' := by
  have hlength : a.length = a'.length := by simpa [signature] using congrArg List.length ha
  have hlength' : b.length = b'.length := by simpa [signature] using congrArg List.length hb
  unfold lexical
  rw [ha, hb, hlength, hlength']

theorem structural_congr (ha : skeleton a = skeleton a') (hb : skeleton b = skeleton b') :
    structural a b = structural a' b' := by
  unfold structural
  rw [ha, hb]

theorem controlFlow_congr (ha : Semblance.controlFlow a = Semblance.controlFlow a')
    (hb : Semblance.controlFlow b = Semblance.controlFlow b') : controlFlow a b = controlFlow a' b' := by
  unfold controlFlow
  rw [ha, hb]

end Phase

/-- What the adaptive policy reports on token lists depends on their profiles alone. -/
theorem Report.scored_adaptive_congr (ha : profile a = profile a') (hb : profile b = profile b')
    (lines : List SharedLine) : scored .adaptive a b lines = scored .adaptive a' b' lines := by
  obtain ⟨hsigns, hskeleton, hflow⟩ := Profile.mk.inj ha
  obtain ⟨hsigns', hskeleton', hflow'⟩ := Profile.mk.inj hb
  have hl : Policy.adaptive.lexical a b = Policy.adaptive.lexical a' b' := Phase.lexical_congr hsigns hsigns'
  have hs : Policy.adaptive.structural a b = Policy.adaptive.structural a' b' :=
    Phase.structural_congr hskeleton hskeleton'
  have hc : Policy.adaptive.controlFlow a b = Policy.adaptive.controlFlow a' b' :=
    Phase.controlFlow_congr hflow hflow'
  unfold scored
  rw [hl, hs, hc, hskeleton, hflow]

end Profiles

/-! ### Reports on renamed texts -/

theorem tokenize_eq_nil_iff_of_renames {a a' : String}
    (h : List.Forall₂ Token.Renames (tokenize a) (tokenize a')) : tokenize a = [] ↔ tokenize a' = [] := by
  rw [← List.length_eq_zero_iff, h.length_eq, List.length_eq_zero_iff]

/-- Renaming two texts that are not identical changes nothing in the report of the adaptive policy but the shared
lines. -/
theorem compareTexts_adaptive_of_renames {a a' b b' : String}
    (ha : List.Forall₂ Token.Renames (tokenize a) (tokenize a'))
    (hb : List.Forall₂ Token.Renames (tokenize b) (tokenize b'))
    (hne : Text.normalize a ≠ Text.normalize b) (hne' : Text.normalize a' ≠ Text.normalize b') :
    { compareTexts .adaptive a b with sharedLines := (compareTexts .adaptive a' b').sharedLines } =
      compareTexts .adaptive a' b' := by
  have hid : ¬ AreIdentical a b := fun h => hne h.2
  have hid' : ¬ AreIdentical a' b' := fun h => hne' h.2
  have hempty : tokenize a = [] ∨ tokenize b = [] ↔ tokenize a' = [] ∨ tokenize b' = [] :=
    or_congr (tokenize_eq_nil_iff_of_renames ha) (tokenize_eq_nil_iff_of_renames hb)
  have hroute := Route.of_eq a b
  have hroute' := Route.of_eq a' b'
  rw [if_neg hid] at hroute
  rw [if_neg hid'] at hroute'
  unfold compareTexts
  by_cases h : tokenize a' = [] ∨ tokenize b' = []
  · rw [hroute, hroute', if_pos (hempty.2 h), if_pos h]
    rfl
  · rw [hroute, hroute', if_neg (mt hempty.1 h), if_neg h]
    exact Report.scored_adaptive_congr (profile_eq_of_renames ha) (profile_eq_of_renames hb) _

/-- Renaming a shared line on both sides: the reports differ in the shared lines only. -/
theorem compareTexts_adaptive_of_renames_total :
    let a := "let total = 1;"
    let a' := "let t = 2;"
    let b := "let total = 1;\nx"
    let b' := "let u = 'three';\ny"
    { compareTexts .adaptive a b with sharedLines := (compareTexts .adaptive a' b').sharedLines } =
        compareTexts .adaptive a' b' ∧ sharedLines a b ≠ [] ∧ sharedLines a' b' = [] := by
  intro a a' b b'
  have htokens : tokenize a = [⟨.keyword, "let"⟩, ⟨.identifier, "total"⟩, ⟨.operator, "="⟩, ⟨.literal, "1"⟩,
      ⟨.punctuation, ";"⟩] := by decide +kernel
  have htokens' : tokenize a' = [⟨.keyword, "let"⟩, ⟨.identifier, "t"⟩, ⟨.operator, "="⟩, ⟨.literal, "2"⟩,
      ⟨.punctuation, ";"⟩] := by decide +kernel
  have hb : tokenize b = tokenize a ++ [⟨.identifier, "x"⟩] := by decide +kernel
  have hb' : tokenize b' = [⟨.keyword, "let"⟩, ⟨.identifier, "u"⟩, ⟨.operator, "="⟩, ⟨.literal, "'three'"⟩,
      ⟨.punctuation, ";"⟩, ⟨.identifier, "y"⟩] := by decide +kernel
  have hfirst : List.Forall₂ Token.Renames (tokenize a) (tokenize a') := by
    rw [htokens, htokens']
    simp [Token.Renames, Token.isMark]
  have hsecond : List.Forall₂ Token.Renames (tokenize b) (tokenize b') := by
    rw [hb, htokens, hb']
    simp [Token.Renames, Token.isMark]
  have hne : Text.normalize a ≠ Text.normalize b := by decide +kernel
  have hne' : Text.normalize a' ≠ Text.normalize b' := by decide +kernel
  have hnone : sharedLines a' b' = [] := by decide +kernel
  refine ⟨compareTexts_adaptive_of_renames hfirst hsecond hne hne', ?_, hnone⟩
  intro h
  have hpairs := filter_sharedLines a b a
  have hnumbers : lineNumbers a a = [1] ∧ lineNumbers b a = [1] := by decide +kernel
  rw [h, hnumbers.1, hnumbers.2] at hpairs
  simp at hpairs

end Semblance
