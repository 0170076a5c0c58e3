import Mathlib.Data.List.MinMax
import Semblance.Proofs.Comparison.Weighing

/-!
# Overall scores as means

The overall score of a policy is a mean of the scores that have a positive weight, rounded to an integer: it lies
between the least and the greatest of them (`Weights.score_between`), and a raised score lowers neither the overall
score nor the verdict.  On scores up to `2 ^ 40` this holds of the checked arithmetic, which succeeds there
(`Policy.combine?_is_mean`).
-/

namespace Semblance

/-! ### Scores that count -/

/-- The scores that have a positive weight. -/
def Weights.weighed (w : Weights) (lexical structural controlFlow : Int) : List Int :=
  ([(w.lexical, lexical), (w.structural, structural), (w.controlFlow, controlFlow)].filter fun entry =>
    decide (0 < entry.1.value)).map Prod.snd

section

variable {a b c : Rat} {l m f n : Int}

theorem Weights.mem_weighed : n ∈ (ofRat a b c).weighed l m f ↔
    0 < nearest a ∧ n = l ∨ 0 < nearest b ∧ n = m ∨ 0 < nearest c ∧ n = f := by
  have hvalue (x : Rat) : (Number.real (.finite x)).value = x := rfl
  simp only [weighed, ofRat, List.mem_map, List.mem_filter, List.mem_cons, List.not_mem_nil, or_false,
    decide_eq_true_eq]
  constructor
  · rintro ⟨entry, ⟨rfl | rfl | rfl, hpos⟩, rfl⟩
    · exact .inl ⟨hpos, rfl⟩
    · exact .inr (.inl ⟨hpos, rfl⟩)
    · exact .inr (.inr ⟨hpos, rfl⟩)
  · rintro (⟨hpos, rfl⟩ | ⟨hpos, rfl⟩ | ⟨hpos, rfl⟩)
    · exact ⟨_, ⟨.inl rfl, hpos⟩, rfl⟩
    · exact ⟨_, ⟨.inr (.inl rfl), hpos⟩, rfl⟩
    · exact ⟨_, ⟨.inr (.inr rfl), hpos⟩, rfl⟩

/-- One of three shares is large enough to be no zero when it is rounded. -/
theorem Weights.weighed_ne_nil (h : AreShares a b c) (l m f : Int) : (ofRat a b c).weighed l m f ≠ [] := by
  have hpos {x : Rat} (hx : 1 / 4 ≤ x) : 0 < nearest x := by
    have hquarter : nearest (1 / 4) = 1 / 4 := nearest_eq_self ⟨1, -2, by decide, by decide, by norm_num⟩
    linarith [nearest_mono hx]
  obtain ⟨n, hn⟩ : ∃ n, n ∈ (ofRat a b c).weighed l m f := by
    simp only [mem_weighed]
    by_cases ha : 1 / 4 ≤ a
    · exact ⟨l, .inl ⟨hpos ha, rfl⟩⟩
    · by_cases hb : 1 / 4 ≤ b
      · exact ⟨m, .inr (.inl ⟨hpos hb, rfl⟩)⟩
      · exact ⟨f, .inr (.inr ⟨hpos (by linarith [h.sum]), rfl⟩)⟩
  exact List.ne_nil_of_mem hn

theorem Weights.score_between (h : AreShares a b c) (hl : |l| ≤ 2 ^ 40) (hm : |m| ≤ 2 ^ 40) (hf : |f| ≤ 2 ^ 40) :
    ((ofRat a b c).weighed l m f).minimum ≤ (ofRat a b c).score l m f ∧
      (ofRat a b c).score l m f ≤ ((ofRat a b c).weighed l m f).maximum := by
  have hne := weighed_ne_nil h l m f
  obtain ⟨low, hlow⟩ := WithTop.ne_top_iff_exists.1 (List.minimum_ne_top_of_ne_nil hne)
  obtain ⟨high, hhigh⟩ := WithBot.ne_bot_iff_exists.1 (List.maximum_ne_bot_of_ne_nil hne)
  have hbound {n : Int} (hn : n ∈ (ofRat a b c).weighed l m f) : |n| ≤ 2 ^ 40 := by
    rcases mem_weighed.1 hn with ⟨-, rfl⟩ | ⟨-, rfl⟩ | ⟨-, rfl⟩
    · exact hl
    · exact hm
    · exact hf
  have hmem {n : Int} (hn : n ∈ (ofRat a b c).weighed l m f) : n ∈ Set.Icc low high :=
    ⟨List.minimum_le_of_mem hn hlow.symm, List.le_maximum_of_mem hn hhigh.symm⟩
  have hscore := score_mem_Icc h (hbound (List.minimum_mem hlow.symm)) (hbound (List.maximum_mem hhigh.symm))
    (fun hw => hmem (mem_weighed.2 (.inl ⟨hw, rfl⟩))) (fun hw => hmem (mem_weighed.2 (.inr (.inl ⟨hw, rfl⟩))))
    fun hw => hmem (mem_weighed.2 (.inr (.inr ⟨hw, rfl⟩)))
  rw [← hlow, ← hhigh]
  exact ⟨WithTop.coe_le_coe.2 hscore.1, WithBot.coe_le_coe.2 hscore.2⟩

end

/-! ### Verdicts -/

/-- The place of a verdict in the order of strength. -/
def Verdict.strength : Verdict → Nat
  | original => 0
  | similar => 1
  | plagiarized => 2

theorem Verdict.strength_ofScore_mono (t : Thresholds) {n n' : Int} (h : n ≤ n') :
    (ofScore t n).strength ≤ (ofScore t n').strength := by
  unfold ofScore
  split
  · rw [if_pos (by omega)]
  · split
    · split
      · decide
      · rw [if_pos (by omega)]
    · exact Nat.zero_le _

/-! ### Means -/

/-- On scores up to `2 ^ 40` a policy finds an overall score.  It lies between the least and the greatest of the scores
that have a positive weight, and is the common score of three equal ones; scores that are raised lower neither it nor
the verdict. -/
theorem Policy.combine?_is_mean (p : Policy) (noSkeleton noFlow : Bool) {l m f : Int} (hl : |l| ≤ 2 ^ 40)
    (hm : |m| ≤ 2 ^ 40) (hf : |f| ≤ 2 ^ 40) :
    ∃ overall verdict, p.combine? l m f noSkeleton noFlow = .ok (overall, verdict) ∧
      (((p.weights noSkeleton noFlow).weighed l m f).minimum ≤ overall ∧
        overall ≤ ((p.weights noSkeleton noFlow).weighed l m f).maximum) ∧
      (l = m → m = f → overall = l) ∧
      ∀ l' m' f' : Int, l ≤ l' → m ≤ m' → f ≤ f' → |l'| ≤ 2 ^ 40 → |m'| ≤ 2 ^ 40 → |f'| ≤ 2 ^ 40 →
        ∃ overall' verdict', p.combine? l' m' f' noSkeleton noFlow = .ok (overall', verdict') ∧
          overall ≤ overall' ∧ verdict.strength ≤ verdict'.strength := by
  obtain ⟨a, b, c, hw, h⟩ := p.exists_weights_eq noSkeleton noFlow
  refine ⟨_, _, (p.combine?_eq_ok_of_abs_le noSkeleton noFlow hl hm hf).trans (congrArg Except.ok (p.combine_eq ..)),
    ?between, ?equal, ?raised⟩
  case between =>
    rw [hw]
    exact Weights.score_between h hl hm hf
  case equal =>
    rintro rfl rfl
    rw [hw]
    exact Weights.score_same h hl
  case raised =>
    intro l' m' f' hll hmm hff hl' hm' hf'
    have hle : (p.weights noSkeleton noFlow).score l m f ≤ (p.weights noSkeleton noFlow).score l' m' f' := by
      rw [hw]
      exact Weights.score_mono h (fun _ => hll) (fun _ => hmm) fun _ => hff
    exact ⟨_, _,
      (p.combine?_eq_ok_of_abs_le noSkeleton noFlow hl' hm' hf').trans (congrArg Except.ok (p.combine_eq ..)), hle,
      Verdict.strength_ofScore_mono _ hle⟩

/-- A first text without marks and with control flow: a large score of no weight has no say. -/
theorem Policy.combine?_is_mean_no_marks :
    |(57 : Int)| ≤ 2 ^ 40 ∧ |(2 ^ 40 : Int)| ≤ 2 ^ 40 ∧ |(-3 : Int)| ≤ 2 ^ 40 ∧
      Policy.adaptive.combine? 57 (2 ^ 40) (-3) true false = .ok (33, .original) ∧
      ((Policy.adaptive.weights true false).weighed 57 (2 ^ 40) (-3)).minimum ≤ (33 : Int) ∧
      (33 : Int) ≤ ((Policy.adaptive.weights true false).weighed 57 (2 ^ 40) (-3)).maximum ∧
      ∃ overall verdict, Policy.adaptive.combine? 57 (2 ^ 40) 97 true false = .ok (overall, verdict) ∧ 33 ≤ overall ∧
        Verdict.original.strength ≤ verdict.strength := by
  have hl : |(57 : Int)| ≤ 2 ^ 40 := by decide
  have hm : |(2 ^ 40 : Int)| ≤ 2 ^ 40 := by decide
  have hf : |(-3 : Int)| ≤ 2 ^ 40 := by decide
  have hscore : Policy.adaptive.combine? 57 (2 ^ 40) (-3) true false = .ok (33, .original) := by decide +kernel
  obtain ⟨overall, verdict, hok, hbetween, -, hraised⟩ := combine?_is_mean .adaptive true false hl hm hf
  obtain ⟨rfl, rfl⟩ := Prod.mk.inj (Except.ok.inj (hscore.symm.trans hok))
  exact ⟨hl, hm, hf, hscore, hbetween.1, hbetween.2,
    hraised 57 (2 ^ 40) 97 le_rfl le_rfl (by decide) hl hm (by decide)⟩

end Semblance
