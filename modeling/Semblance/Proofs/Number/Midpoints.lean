import Mathlib.Algebra.Group.Int.Even
import Semblance.Proofs.Number.Nearest

/-!
# Middles between binary fractions

The binary fractions from `2 ^ (e + 52)` to `2 ^ (e + 53)` are the multiples of `2 ^ e` there, so a fraction below
`m * 2 ^ e` is at most the multiple before it (`IsBinaryFraction.le_pred`).  Rounding reaches `m * 2 ^ e` from the
middle between the two on: past the middle always, and on it exactly if `m` is even (`le_nearest_iff`).
-/

namespace Semblance

/-! ### The multiples of a power of two -/

theorem binaryLog_eq {x : Rat} {b : Int} (hlow : (2 : Rat) ^ b ≤ |x|) (hhigh : |x| < (2 : Rat) ^ (b + 1)) :
    binaryLog x = b := by
  have hx : x ≠ 0 := by
    intro hx
    rw [hx, abs_zero] at hlow
    exact absurd hlow (not_le.2 (by positivity))
  have h₁ : binaryLog x < b + 1 :=
    (zpow_lt_zpow_iff_right₀ one_lt_two).1 ((zpow_binaryLog_le hx).trans_lt hhigh)
  have h₂ : b < binaryLog x + 1 :=
    (zpow_lt_zpow_iff_right₀ one_lt_two).1 (hlow.trans_lt (lt_zpow_binaryLog hx))
  omega

/-- A binary fraction of at least `2 ^ (52 + e)` has no bit below `2 ^ e`. -/
theorem IsBinaryFraction.exists_eq_mul {f : Rat} (hf : IsBinaryFraction f) {e : Int} (h : (2 : Rat) ^ (52 + e) ≤ f) :
    ∃ n : Int, f = n * (2 : Rat) ^ e := by
  obtain ⟨m, e', hm, -, rfl⟩ := hf
  by_cases he : e ≤ e'
  · obtain ⟨k, rfl⟩ := Int.le.dest he
    refine ⟨m * 2 ^ k, ?_⟩
    rw [zpow_add₀ two_ne_zero, zpow_natCast]
    push_cast
    ring
  · -- with lower bits the fraction has no room to be larger than the bound
    have hm' : (m : Rat) ≤ (2 : Rat) ^ (53 : Int) := by exact_mod_cast (le_abs_self m).trans hm
    have hle : (m : Rat) * (2 : Rat) ^ e' ≤ (2 : Rat) ^ (52 + e) := by
      calc (m : Rat) * (2 : Rat) ^ e' ≤ (2 : Rat) ^ (53 : Int) * (2 : Rat) ^ e' := by gcongr
        _ = (2 : Rat) ^ (53 + e') := (zpow_add₀ two_ne_zero _ _).symm
        _ ≤ (2 : Rat) ^ (52 + e) := zpow_le_zpow_right₀ one_le_two (by omega)
    refine ⟨2 ^ 52, ?_⟩
    rw [le_antisymm hle h, zpow_add₀ two_ne_zero]
    norm_cast

variable {m e : Int}

/-- There is no binary fraction between two neighbouring multiples. -/
theorem IsBinaryFraction.le_pred {f : Rat} (hf : IsBinaryFraction f) (hm : 2 ^ 52 < m)
    (h : f < m * (2 : Rat) ^ e) : f ≤ (m - 1) * (2 : Rat) ^ e := by
  by_contra hc
  have hpow : (0 : Rat) < (2 : Rat) ^ e := by positivity
  have hm' : (2 : Rat) ^ (52 : Int) ≤ m - 1 := by exact_mod_cast (by omega : (2 : Int) ^ 52 ≤ m - 1)
  have hlow : (2 : Rat) ^ (52 + e) ≤ f := by
    calc (2 : Rat) ^ (52 + e) = (2 : Rat) ^ (52 : Int) * (2 : Rat) ^ e := zpow_add₀ two_ne_zero _ _
      _ ≤ (m - 1) * (2 : Rat) ^ e := by gcongr
      _ ≤ f := (not_le.1 hc).le
  obtain ⟨n, rfl⟩ := hf.exists_eq_mul hlow
  have hbelow : n < m := by exact_mod_cast (mul_lt_mul_iff_left₀ hpow).1 h
  have habove : m - 1 < n := by exact_mod_cast (mul_lt_mul_iff_left₀ hpow).1 (not_le.1 hc)
  omega

/-! ### The middle -/

/-- A half is rounded to the even one of its neighbours. -/
theorem roundHalfEven_sub_half (m : Int) : roundHalfEven (m - 1 / 2) = if Even m then m else m - 1 := by
  have hfloor : ((m : Rat) - 1 / 2).floor = m - 1 := by
    change ⌊(m : Rat) - 1 / 2⌋ = m - 1
    rw [Int.floor_eq_iff]
    push_cast
    constructor <;> linarith
  have hrest : (m : Rat) - 1 / 2 - ((m - 1 : Int) : Rat) = 1 / 2 := by
    push_cast
    ring
  unfold roundHalfEven
  dsimp only
  rw [hfloor, hrest, if_neg (lt_irrefl _), if_neg (lt_irrefl _)]
  by_cases hm : Even m
  · have hodd : (m - 1) % 2 ≠ 0 := by
      rw [Int.even_iff] at hm
      omega
    rw [if_neg hodd, if_pos hm, sub_add_cancel]
  · have heven : (m - 1) % 2 = 0 := by
      rw [Int.even_iff] at hm
      omega
    rw [if_pos heven, if_neg hm]

theorem nearest_middle (hm : 2 ^ 52 < m) (hm' : m ≤ 2 ^ 53) (he : -1074 ≤ e) :
    nearest ((m - 1 / 2) * (2 : Rat) ^ e) = (if Even m then (m : Rat) else m - 1) * (2 : Rat) ^ e := by
  have hpow : (0 : Rat) < (2 : Rat) ^ e := by positivity
  have hlow : (2 : Rat) ^ (52 : Int) ≤ m - 1 / 2 := by
    have : (2 : Rat) ^ (52 : Int) ≤ m - 1 := by exact_mod_cast (by omega : (2 : Int) ^ 52 ≤ m - 1)
    linarith
  have hhigh : (m : Rat) - 1 / 2 < (2 : Rat) ^ (53 : Int) := by
    have : (m : Rat) ≤ (2 : Rat) ^ (53 : Int) := by exact_mod_cast hm'
    linarith
  have hpos : (0 : Rat) < m - 1 / 2 := lt_of_lt_of_le (by positivity) hlow
  have habs : |((m : Rat) - 1 / 2) * (2 : Rat) ^ e| = (m - 1 / 2) * (2 : Rat) ^ e := abs_of_pos (mul_pos hpos hpow)
  have hlog : binaryLog ((m - 1 / 2) * (2 : Rat) ^ e) = 52 + e := by
    apply binaryLog_eq
    · rw [habs, zpow_add₀ two_ne_zero]
      gcongr
    · rw [habs, show 52 + e + 1 = 53 + e by ring, zpow_add₀ two_ne_zero]
      gcongr
  have hspacing : spacing ((m - 1 / 2) * (2 : Rat) ^ e) = (2 : Rat) ^ e := by
    rw [spacing, hlog]
    congr 1
    omega
  rw [nearest, if_neg (mul_pos hpos hpow).ne', hspacing, mul_div_cancel_right₀ _ hpow.ne', roundHalfEven_sub_half]
  split <;> push_cast <;> rfl

/-- Rounding reaches a fraction from the middle between it and the one before on; on the middle itself only if its
significand is even. -/
theorem le_nearest_iff (hm : 2 ^ 52 < m) (hm' : m ≤ 2 ^ 53) (he : -1074 ≤ e) (x : Rat) :
    m * (2 : Rat) ^ e ≤ nearest x ↔
      (m - 1 / 2) * (2 : Rat) ^ e < x ∨ x = (m - 1 / 2) * (2 : Rat) ^ e ∧ Even m := by
  have hpow : (0 : Rat) < (2 : Rat) ^ e := by positivity
  have hlower : IsBinaryFraction ((m - 1) * (2 : Rat) ^ e) := by
    refine ⟨m - 1, e, ?_, he, by push_cast; rfl⟩
    rw [abs_of_nonneg (by omega)]
    omega
  have hupper : IsBinaryFraction (m * (2 : Rat) ^ e) := by
    refine ⟨m, e, ?_, he, rfl⟩
    rw [abs_of_nonneg (by omega)]
    exact hm'
  rcases lt_trichotomy x ((m - 1 / 2) * (2 : Rat) ^ e) with hx | hx | hx
  · -- before the middle the lower fraction is closer
    have hfar : ¬ (m : Rat) * (2 : Rat) ^ e ≤ nearest x := by
      intro h
      have hlt : (m - 1) * (2 : Rat) ^ e < nearest x := by linarith
      linarith [add_le_two_mul hlt (abs_sub_nearest_le hlower x)]
    simp only [hfar, hx.not_gt, hx.ne, false_and, or_self]
  · rw [hx, nearest_middle hm hm' he, mul_le_mul_iff_left₀ hpow]
    by_cases heven : Even m
    · simp [heven]
    · simp [heven]
  · -- past it the upper one is closer, and there is nothing between the two
    have hnear : (m : Rat) * (2 : Rat) ^ e ≤ nearest x := by
      by_contra hc
      have hle := (isBinaryFraction_nearest x).le_pred hm (not_le.1 hc)
      linarith [two_mul_le_add (not_le.1 hc) (abs_sub_nearest_le hupper x)]
    simp only [hnear, hx, true_or]

end Semblance
