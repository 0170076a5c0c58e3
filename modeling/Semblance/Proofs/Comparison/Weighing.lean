import Semblance.Policy
import Semblance.Proofs.Number.Nearest

/-!
# Weighing scores

The weights of a policy are shares of a whole, rounded to binary fractions (`AreShares`).  Weighing is monotone in the
scores that have a weight (`Weights.score_mono`), and three equal scores up to `2 ^ 40` are weighed to that score
(`Weights.score_same`): all roundings on the way, of weights, products and sums, together stay far below a half.  So
the weighted score lies where the scores lie that have a weight (`Weights.score_mem_Icc`).

On such scores no step leaves the range of binary numbers: the checked arithmetic succeeds and gives the same score
(`Policy.combine?_eq_ok_of_abs_le`).
-/

namespace Semblance

/-! ### Monotonicity -/

/-- The weighted sum, step by step. -/
theorem Weights.value_sum_ofRat (a b c : Rat) (l m f : Int) :
    ((ofRat a b c).sum l m f).value =
      nearest (nearest (nearest
        (nearest (nearest (nearest l * nearest (nearest a))) + nearest (nearest (nearest m * nearest (nearest b))))) +
        nearest (nearest (nearest f * nearest (nearest c)))) := rfl

/-- Parts of a whole that the three weights of a policy are rounded from. -/
structure AreShares (a b c : Rat) : Prop where
  lexical : 0 ≤ a
  structural : 0 ≤ b
  controlFlow : 0 ≤ c
  sum : a + b + c = 1

theorem AreShares.mem_Icc {a b c : Rat} (h : AreShares a b c) :
    a ∈ Set.Icc 0 1 ∧ b ∈ Set.Icc 0 1 ∧ c ∈ Set.Icc 0 1 := by
  obtain ⟨ha, hb, hc, hsum⟩ := h
  exact ⟨⟨ha, by linarith⟩, ⟨hb, by linarith⟩, ⟨hc, by linarith⟩⟩

theorem Policy.exists_weights_eq (p : Policy) (noSkeleton noFlow : Bool) :
    ∃ a b c : Rat, p.weights noSkeleton noFlow = .ofRat a b c ∧ AreShares a b c := by
  cases p <;> cases noSkeleton <;> cases noFlow <;>
    exact ⟨_, _, _, rfl, by norm_num, by norm_num, by norm_num, by norm_num⟩

/-- Higher scores are weighed higher, whatever happens to scores of no weight. -/
theorem Weights.score_mono {a b c : Rat} (h : AreShares a b c) {l m f l' m' f' : Int} (hl : 0 < nearest a → l ≤ l')
    (hm : 0 < nearest b → m ≤ m') (hf : 0 < nearest c → f ≤ f') :
    (ofRat a b c).score l m f ≤ (ofRat a b c).score l' m' f' := by
  have hterm {w : Rat} (hw : 0 ≤ w) {n n' : Int} (hn : 0 < nearest w → n ≤ n') :
      nearest (nearest (nearest n * nearest (nearest w))) ≤ nearest (nearest (nearest n' * nearest (nearest w))) := by
    rcases (nearest_nonneg hw).eq_or_lt with hzero | hpos
    · rw [← hzero, nearest_zero, mul_zero, mul_zero]
    · have hle : nearest n ≤ nearest n' := nearest_mono (by exact_mod_cast hn hpos)
      exact nearest_mono (nearest_mono (mul_le_mul_of_nonneg_right hle (nearest_nonneg hpos.le)))
  refine roundHalfUp_mono ?_
  rw [value_sum_ofRat, value_sum_ofRat]
  exact nearest_mono (add_le_add
    (nearest_mono (nearest_mono (add_le_add (hterm h.lexical hl) (hterm h.structural hm)))) (hterm h.controlFlow hf))

/-! ### Scores up to `2 ^ 40` -/

section

variable {a b c : Rat} {l m f n : Int}

theorem abs_intCast_le (hn : |n| ≤ 2 ^ 40) : |(n : Rat)| ≤ 2 ^ 40 := by exact_mod_cast hn

/-- The weighted score without the roundings that change nothing. -/
theorem Weights.score_ofRat (hl : |l| ≤ 2 ^ 40) (hm : |m| ≤ 2 ^ 40) (hf : |f| ≤ 2 ^ 40) : (ofRat a b c).score l m f =
    roundHalfUp (nearest (nearest (nearest (l * nearest a) + nearest (m * nearest b)) + nearest (f * nearest c))) := by
  have hself (x : Rat) : nearest (nearest x) = nearest x := nearest_eq_self (isBinaryFraction_nearest x)
  have hwhole {n : Int} (hn : |n| ≤ 2 ^ 40) : nearest n = n := nearest_intCast (hn.trans (by decide))
  rw [score, value_sum_ofRat, hwhole hl, hwhole hm, hwhole hf]
  simp only [hself]

/-- A score times a weight is no larger than the score. -/
theorem abs_mul_nearest_le {w : Rat} (hn : |n| ≤ 2 ^ 40) (hw : w ∈ Set.Icc 0 1) :
    |n * nearest w| ≤ 2 ^ 40 ∧ |nearest (n * nearest w)| ≤ 2 ^ 40 := by
  have hone : |nearest w| ≤ 1 :=
    abs_nearest_le (isBinaryFraction_intCast (n := 1) (by decide)) (by rw [abs_of_nonneg hw.1]; exact hw.2)
  have hle : |n * nearest w| ≤ 2 ^ 40 := by
    rw [abs_mul]
    calc |(n : Rat)| * |nearest w| ≤ |(n : Rat)| * 1 := by gcongr
      _ ≤ 2 ^ 40 := by rw [mul_one]; exact abs_intCast_le hn
  exact ⟨hle, abs_nearest_le ⟨1, 40, by decide, by decide, by norm_num⟩ hle⟩

/-- A sum of two numbers up to a power of two is, also when rounded, within the next power. -/
theorem abs_nearest_add_le {x y : Rat} (k : Nat) (hx : |x| ≤ 2 ^ k) (hy : |y| ≤ 2 ^ k) :
    |x + y| ≤ 2 ^ (k + 1) ∧ |nearest (x + y)| ≤ 2 ^ (k + 1) := by
  have hle : |x + y| ≤ 2 ^ (k + 1) := by
    rw [pow_succ]
    linarith [abs_add_le x y]
  exact ⟨hle, abs_nearest_le ⟨1, (k : Int) + 1, by decide, by omega, by rw [← zpow_natCast]; push_cast; ring⟩ hle⟩

/-- Rounding a number up to `2 ^ 42` adds little to its distance from another one. -/
theorem abs_nearest_sub_le {x y d : Rat} (hx : |x| ≤ 2 ^ 42) (h : |x - y| ≤ d) : |nearest x - y| ≤ d + 1 / 4096 := by
  have hround : |x - nearest x| ≤ (2 : Rat) ^ (-11 : Int) / 2 :=
    abs_sub_nearest_le_half (by decide) (hx.trans (by norm_num))
  have hpow : (2 : Rat) ^ (-11 : Int) / 2 = 1 / 4096 := by norm_num
  rw [hpow, abs_sub_comm] at hround
  linarith [abs_sub_le (nearest x) x y]

/-- A score times a rounded weight is close to the score times the share: the weight is off by half of its last bit at
most, and a score up to `2 ^ 40` leaves that small. -/
theorem abs_nearest_mul_sub_le {w : Rat} (hn : |n| ≤ 2 ^ 40) (hw : w ∈ Set.Icc 0 1) :
    |nearest (n * nearest w) - n * w| ≤ 2 / 4096 := by
  have hweight : |w - nearest w| ≤ (2 : Rat) ^ (-53 : Int) / 2 :=
    abs_sub_nearest_le_half (by decide) (by rw [abs_of_nonneg hw.1]; exact hw.2.trans (by norm_num))
  have hproduct : |n * nearest w - n * w| ≤ 1 / 4096 := by
    rw [← mul_sub, abs_mul, abs_sub_comm]
    calc |(n : Rat)| * |w - nearest w| ≤ 2 ^ 40 * ((2 : Rat) ^ (-53 : Int) / 2) := by
          gcongr
          exact abs_intCast_le hn
      _ ≤ 1 / 4096 := by norm_num
  have hle := (abs_mul_nearest_le hn hw).1.trans (by norm_num : (2 : Rat) ^ 40 ≤ 2 ^ 42)
  linarith [abs_nearest_sub_le hle hproduct]

/-- Three equal scores are weighed to that score. -/
theorem Weights.score_same (h : AreShares a b c) (hn : |n| ≤ 2 ^ 40) : (ofRat a b c).score n n n = n := by
  obtain ⟨ha, hb, hc⟩ := h.mem_Icc
  have hboth := abs_nearest_add_le 40 (abs_mul_nearest_le hn ha).2 (abs_mul_nearest_le hn hb).2
  have hlarge := (abs_mul_nearest_le hn hc).2.trans (by norm_num : (2 : Rat) ^ 40 ≤ 2 ^ 41)
  have htotal := abs_nearest_add_le 41 hboth.2 hlarge
  have hclose : |nearest (n * nearest a) + nearest (n * nearest b) - (n * a + n * b)| ≤ 4 / 4096 := by
    rw [add_sub_add_comm]
    linarith [abs_add_le (nearest (n * nearest a) - n * a) (nearest (n * nearest b) - n * b),
      abs_nearest_mul_sub_le hn ha, abs_nearest_mul_sub_le hn hb]
  have hclose' := abs_nearest_sub_le (hboth.1.trans (by norm_num)) hclose
  have hsum : |nearest (nearest (n * nearest a) + nearest (n * nearest b)) + nearest (n * nearest c) -
      (n * a + n * b + n * c)| ≤ 7 / 4096 := by
    rw [add_sub_add_comm]
    linarith [abs_add_le (nearest (nearest (n * nearest a) + nearest (n * nearest b)) - (n * a + n * b))
      (nearest (n * nearest c) - n * c), abs_nearest_mul_sub_le hn hc]
  have hsum' := abs_nearest_sub_le htotal.1 hsum
  rw [← mul_add, ← mul_add, h.sum, mul_one] at hsum'
  rw [score_ofRat hn hn hn]
  exact roundHalfUp_eq (hn.trans (by decide)) (hsum'.trans (by norm_num))

/-- The weighted score lies where all scores lie that have a weight. -/
theorem Weights.score_mem_Icc (h : AreShares a b c) {low high : Int} (hlow : |low| ≤ 2 ^ 40) (hhigh : |high| ≤ 2 ^ 40)
    (hl : 0 < nearest a → l ∈ Set.Icc low high) (hm : 0 < nearest b → m ∈ Set.Icc low high)
    (hf : 0 < nearest c → f ∈ Set.Icc low high) : (ofRat a b c).score l m f ∈ Set.Icc low high := by
  constructor
  · calc low = (ofRat a b c).score low low low := (score_same h hlow).symm
      _ ≤ (ofRat a b c).score l m f := score_mono h (fun hw => (hl hw).1) (fun hw => (hm hw).1) fun hw => (hf hw).1
  · calc (ofRat a b c).score l m f
        ≤ (ofRat a b c).score high high high :=
          score_mono h (fun hw => (hl hw).2) (fun hw => (hm hw).2) fun hw => (hf hw).2
      _ = high := score_same h hhigh

end

/-- Scores from `0` to `100` are weighed to such a score. -/
theorem Policy.score_mem_Icc (p : Policy) (noSkeleton noFlow : Bool) {l m f : Int} (hl : l ∈ Set.Icc 0 100)
    (hm : m ∈ Set.Icc 0 100) (hf : f ∈ Set.Icc 0 100) :
    (p.weights noSkeleton noFlow).score l m f ∈ Set.Icc 0 100 := by
  obtain ⟨a, b, c, hw, h⟩ := p.exists_weights_eq noSkeleton noFlow
  rw [hw]
  exact Weights.score_mem_Icc h (by decide) (by decide) (fun _ => hl) (fun _ => hm) fun _ => hf

/-! ### Checked steps -/

theorem nearest_mem_Icc {x y : Rat} (hy : nearest y = y) (h : x ∈ Set.Icc 0 y) : nearest x ∈ Set.Icc 0 y :=
  ⟨nearest_nonneg h.1, hy ▸ nearest_mono h.2⟩

/-- Numbers up to `2 ^ 42` are far from the end of the range. -/
theorem overflows_eq_false_of_abs_le {x : Rat} (h : |x| ≤ 2 ^ 42) : Binary64.overflows x = false := by
  have hle : |nearest x| ≤ 2 ^ 42 := abs_nearest_le ⟨1, 42, by decide, by decide, by norm_num⟩ h
  have hpow : (2 : Rat) ^ (42 : Int) < (2 : Rat) ^ (1024 : Int) := zpow_lt_zpow_right₀ one_lt_two (by decide)
  rw [Binary64.overflows, rat_abs_eq, decide_eq_false_iff_not, not_le]
  exact lt_of_le_of_lt hle (by exact_mod_cast hpow)

theorem overflows_eq_false {x : Rat} (h : x ∈ Set.Icc 0 1000) : Binary64.overflows x = false :=
  overflows_eq_false_of_abs_le (by rw [abs_of_nonneg h.1]; exact h.2.trans (by norm_num))

theorem Binary64.ofRat_eq_finite {x : Rat} (h : |x| ≤ 2 ^ 42) : ofRat x = finite (nearest x) := by
  rw [ofRat, overflows_eq_false_of_abs_le h, if_neg (by decide)]

namespace Number

theorem mul?_eq_ok {n : Int} {w : Rat} (hn : |n| ≤ 2 ^ 40) (h : |n * w| ≤ 2 ^ 42) :
    (whole n).mul? (real (.finite w)) = .ok (real (.finite (nearest (n * w)))) := by
  have hn' : |(n : Rat)| ≤ 2 ^ 42 := (abs_intCast_le hn).trans (by norm_num)
  have hself : nearest n = n := nearest_intCast (hn.trans (by decide))
  have hwhole : (whole n).binary? = .ok (.finite n) := by
    rw [binary?, overflows_eq_false_of_abs_le hn', if_neg (by decide), hself]
  have hsteps : (whole n).mul? (real (.finite w)) =
      (whole n).binary?.bind fun x => .ok (real (x.mul (.finite w))) := rfl
  rw [hsteps, hwhole, ← Binary64.ofRat_eq_finite h]
  rfl

theorem add?_eq_ok {x y : Rat} (h : |x + y| ≤ 2 ^ 42) :
    (real (.finite x)).add? (real (.finite y)) = .ok (real (.finite (nearest (x + y)))) := by
  rw [← Binary64.ofRat_eq_finite h]
  rfl

theorem roundHalfUp?_eq_ok {x : Rat} (h : |x| ≤ 2 ^ 42) : (real (.finite x)).roundHalfUp? = .ok (roundHalfUp x) := by
  have hsteps : (real (.finite x)).roundHalfUp? =
      if Binary64.overflows (x * (1 : Int)) then .error .infinityToInteger else .ok (roundHalfUp (x * (1 : Int))) := rfl
  rw [hsteps, Int.cast_one, mul_one, overflows_eq_false_of_abs_le h, if_neg (by decide)]

end Number

/-- Weighing by checked steps gives the weighted score. -/
theorem Weights.score?_eq_ok {a b c : Rat} (h : AreShares a b c) {l m f : Int} (hl : |l| ≤ 2 ^ 40) (hm : |m| ≤ 2 ^ 40)
    (hf : |f| ≤ 2 ^ 40) : (ofRat a b c).score? l m f = .ok ((ofRat a b c).score l m f) := by
  have hsteps : (ofRat a b c).score? l m f =
      ((Number.whole l).mul? (.real (.finite (nearest a)))).bind fun words =>
        ((Number.whole m).mul? (.real (.finite (nearest b)))).bind fun marks =>
          (words.add? marks).bind fun both =>
            ((Number.whole f).mul? (.real (.finite (nearest c)))).bind fun flow =>
              (both.add? flow).bind Number.roundHalfUp? := rfl
  obtain ⟨ha, hb, hc⟩ := h.mem_Icc
  obtain ⟨hl', hwords⟩ := abs_mul_nearest_le hl ha
  obtain ⟨hm', hmarks⟩ := abs_mul_nearest_le hm hb
  obtain ⟨hf', hflow⟩ := abs_mul_nearest_le hf hc
  have hboth := abs_nearest_add_le 40 hwords hmarks
  have htotal := abs_nearest_add_le 41 hboth.2 (hflow.trans (by norm_num))
  have hlarge {x : Rat} (hx : |x| ≤ 2 ^ 40) : |x| ≤ 2 ^ 42 := hx.trans (by norm_num)
  rw [hsteps, score_ofRat hl hm hf, Number.mul?_eq_ok hl (hlarge hl'), Except.bind, Number.mul?_eq_ok hm (hlarge hm'),
    Except.bind, Number.add?_eq_ok (hboth.1.trans (by norm_num)), Except.bind, Number.mul?_eq_ok hf (hlarge hf'),
    Except.bind, Number.add?_eq_ok htotal.1, Except.bind, Number.roundHalfUp?_eq_ok htotal.2]

/-- On scores up to `2 ^ 40` the checked steps of a policy succeed. -/
theorem Policy.combine?_eq_ok_of_abs_le (p : Policy) (noSkeleton noFlow : Bool) {l m f : Int} (hl : |l| ≤ 2 ^ 40)
    (hm : |m| ≤ 2 ^ 40) (hf : |f| ≤ 2 ^ 40) :
    p.combine? l m f noSkeleton noFlow = .ok (p.combine l m f noSkeleton noFlow) := by
  obtain ⟨a, b, c, hw, h⟩ := p.exists_weights_eq noSkeleton noFlow
  rw [combine?_eq, combine_eq, hw, Weights.score?_eq_ok h hl hm hf]
  rfl

theorem Policy.combine?_eq_ok (p : Policy) (noSkeleton noFlow : Bool) {l m f : Int} (hl : l ∈ Set.Icc 0 100)
    (hm : m ∈ Set.Icc 0 100) (hf : f ∈ Set.Icc 0 100) :
    p.combine? l m f noSkeleton noFlow = .ok (p.combine l m f noSkeleton noFlow) := by
  have hsmall {n : Int} (hn : n ∈ Set.Icc 0 100) : |n| ≤ 2 ^ 40 := by
    rw [abs_of_nonneg hn.1]
    exact hn.2.trans (by decide)
  exact p.combine?_eq_ok_of_abs_le noSkeleton noFlow (hsmall hl) (hsmall hm) (hsmall hf)

end Semblance
