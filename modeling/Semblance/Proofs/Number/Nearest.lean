import Mathlib.Algebra.Order.Field.Power
import Mathlib.Algebra.Order.Round
import Mathlib.Data.Int.ConditionallyCompleteOrder
import Mathlib.Data.Rat.Floor
import Mathlib.Tactic.Linarith
import Mathlib.Tactic.Positivity
import Mathlib.Tactic.Ring
import Semblance.Number.Rounding

/-!
# Nearest binary fractions

What `nearest` is for: `nearest x` is a binary fraction of 53 bits (`isBinaryFraction_nearest`), and no binary fraction
is closer to `x` (`abs_sub_nearest_le`).  A finer grid below the power of two under `x` has nothing closer to offer,
because that power stands between.  Monotonicity follows from closeness alone, whatever is done with ties: if `x < y`
were rounded to fractions in the wrong order, each would lie on the far side of their midpoint (`nearest_mono`).  How
far rounding moves a number follows from its size (`abs_sub_nearest_le_half`).
-/

namespace Semblance

/-- A number of at most 53 significant bits, none of them below `2 ^ (-1074)`. -/
def IsBinaryFraction (f : Rat) : Prop :=
  ∃ m e : Int, |m| ≤ 2 ^ 53 ∧ -1074 ≤ e ∧ f = m * (2 : Rat) ^ e

theorem isBinaryFraction_intCast {n : Int} (h : |n| ≤ 2 ^ 53) : IsBinaryFraction n :=
  ⟨n, 0, h, by decide, by simp⟩

theorem IsBinaryFraction.neg {f : Rat} (hf : IsBinaryFraction f) : IsBinaryFraction (-f) := by
  obtain ⟨m, e, hm, he, rfl⟩ := hf
  exact ⟨-m, e, by rwa [abs_neg], he, by push_cast; ring⟩

/-! ### Points that are no further away -/

/-- A point that is no further from `x` than `f` does not lie beyond `f`. -/
theorem le_of_abs_sub_le {x c f : Rat} (h : |x - c| ≤ |x - f|) (hx : x ≤ f) : c ≤ f := by
  rw [abs_of_nonpos (by linarith : x - f ≤ 0)] at h
  linarith [neg_abs_le (x - c)]

theorem ge_of_abs_sub_le {x c f : Rat} (h : |x - c| ≤ |x - f|) (hx : f ≤ x) : f ≤ c := by
  rw [abs_of_nonneg (by linarith : 0 ≤ x - f)] at h
  linarith [le_abs_self (x - c)]

/-- A number that is no further from the larger of two points than from the smaller is above their middle. -/
theorem add_le_two_mul {x a b : Rat} (hab : a < b) (h : |x - b| ≤ |x - a|) : a + b ≤ 2 * x := by
  by_contra hc
  have hlt : |x - a| < b - x := abs_lt.2 ⟨by linarith, by linarith⟩
  linarith [neg_abs_le (x - b)]

theorem two_mul_le_add {x a b : Rat} (hab : a < b) (h : |x - a| ≤ |x - b|) : 2 * x ≤ a + b := by
  by_contra hc
  have hlt : |x - b| < x - a := abs_lt.2 ⟨by linarith, by linarith⟩
  linarith [le_abs_self (x - a)]

/-! ### Rounding to integers -/

/-- No integer is closer than the rounded one. -/
theorem abs_sub_roundHalfEven_le (x : Rat) (n : Int) : |x - roundHalfEven x| ≤ |x - n| := by
  have hlow : (x.floor : Rat) ≤ x := Int.floor_le x
  have hhigh : x < x.floor + 1 := Int.lt_floor_add_one x
  -- an integer is at most the floor or at least the next one
  have hn : (n : Rat) ≤ x.floor ∨ (x.floor : Rat) + 1 ≤ n := by
    rcases le_or_gt n x.floor with h | h
    · exact .inl (by exact_mod_cast h)
    · exact .inr (by exact_mod_cast h)
  have hbelow (h : x - x.floor ≤ 1 / 2) : |x - x.floor| ≤ |x - n| := by
    rw [abs_of_nonneg (by linarith)]
    rcases hn with hn | hn
    · linarith [le_abs_self (x - n)]
    · linarith [neg_abs_le (x - n)]
  have habove (h : 1 / 2 ≤ x - x.floor) : |x - (x.floor + 1 : Int)| ≤ |x - n| := by
    push_cast
    rw [abs_of_neg (by linarith)]
    rcases hn with hn | hn
    · linarith [le_abs_self (x - n)]
    · linarith [neg_abs_le (x - n)]
  unfold roundHalfEven
  dsimp only
  split
  · rename_i h
    exact hbelow h.le
  split
  · rename_i h
    exact habove h.le
  split
  · rename_i h _
    exact hbelow (not_lt.1 h)
  · rename_i h _ _
    exact habove (not_lt.1 h)

/-- No more than a half is lost. -/
theorem abs_sub_roundHalfEven_le_half (x : Rat) : |x - roundHalfEven x| ≤ 1 / 2 :=
  (abs_sub_roundHalfEven_le x (round x)).trans (abs_sub_round x)

/-- Rounding does not pass an integer. -/
theorem abs_roundHalfEven_le {x : Rat} {n : Int} (h : |x| ≤ n) : |roundHalfEven x| ≤ n := by
  rw [abs_le] at h ⊢
  have hlower : ((-n : Int) : Rat) ≤ roundHalfEven x :=
    ge_of_abs_sub_le (abs_sub_roundHalfEven_le x (-n)) (by push_cast; exact h.1)
  have hupper : (roundHalfEven x : Rat) ≤ n := le_of_abs_sub_le (abs_sub_roundHalfEven_le x n) h.2
  exact ⟨by exact_mod_cast hlower, by exact_mod_cast hupper⟩

/-! ### The grid at a number -/

theorem rat_abs_eq (x : Rat) : x.abs = |x| := by
  unfold Rat.abs
  split
  · rename_i h
    rw [abs_of_nonneg h]
  · rename_i h
    rw [abs_of_neg (not_le.1 h)]

/-- A number other than zero lies between two powers of two that are found from its numerator and denominator. -/
private theorem abs_bounds {x : Rat} (hx : x ≠ 0) :
    (2 : Rat) ^ ((x.num.natAbs.log2 : Int) - x.den.log2 - 1) ≤ |x| ∧
      |x| < (2 : Rat) ^ ((x.num.natAbs.log2 : Int) - x.den.log2 + 1) := by
  have hnum : x.num.natAbs ≠ 0 := by simpa using hx
  have hden : (0 : Rat) < x.den := by exact_mod_cast x.den_pos
  have habs : |x| = x.num.natAbs / x.den := by
    nth_rewrite 1 [← Rat.num_div_den x]
    rw [abs_div, Nat.abs_cast, Nat.cast_natAbs, Int.cast_abs]
  have hlow : (2 : Rat) ^ (x.num.natAbs.log2 : Int) ≤ x.num.natAbs := by
    rw [zpow_natCast]
    exact_mod_cast Nat.log2_self_le hnum
  have hhigh : (x.num.natAbs : Rat) < (2 : Rat) ^ ((x.num.natAbs.log2 : Int) + 1) := by
    exact_mod_cast Nat.lt_log2_self
  have hlow' : (2 : Rat) ^ (x.den.log2 : Int) ≤ x.den := by
    rw [zpow_natCast]
    exact_mod_cast Nat.log2_self_le x.den_nz
  have hhigh' : (x.den : Rat) < (2 : Rat) ^ ((x.den.log2 : Int) + 1) := by
    exact_mod_cast Nat.lt_log2_self
  generalize (x.num.natAbs.log2 : Int) = a at hlow hhigh ⊢
  generalize (x.den.log2 : Int) = b at hlow' hhigh' ⊢
  rw [habs, le_div_iff₀ hden, div_lt_iff₀ hden]
  constructor
  · calc (2 : Rat) ^ (a - b - 1) * x.den
        ≤ (2 : Rat) ^ (a - b - 1) * (2 : Rat) ^ (b + 1) := by gcongr
      _ = (2 : Rat) ^ a := by rw [← zpow_add₀ two_ne_zero]; ring_nf
      _ ≤ x.num.natAbs := hlow
  · calc (x.num.natAbs : Rat)
        < (2 : Rat) ^ (a + 1) := hhigh
      _ = (2 : Rat) ^ (a - b + 1) * (2 : Rat) ^ b := by rw [← zpow_add₀ two_ne_zero]; ring_nf
      _ ≤ (2 : Rat) ^ (a - b + 1) * x.den := by gcongr

theorem zpow_binaryLog_le {x : Rat} (hx : x ≠ 0) : (2 : Rat) ^ binaryLog x ≤ |x| := by
  unfold binaryLog
  dsimp only
  rw [rat_abs_eq]
  split
  · assumption
  · exact (abs_bounds hx).1

theorem lt_zpow_binaryLog {x : Rat} (hx : x ≠ 0) : |x| < (2 : Rat) ^ (binaryLog x + 1) := by
  unfold binaryLog
  dsimp only
  rw [rat_abs_eq]
  split
  · exact (abs_bounds hx).2
  · rename_i h
    simpa using h

theorem spacing_pos (x : Rat) : 0 < spacing x := by
  unfold spacing
  positivity

/-! ### The nearest binary fraction -/

/-- No multiple of the spacing is closer than the nearest fraction. -/
private theorem abs_sub_nearest_le_multiple {x : Rat} (hx : x ≠ 0) (n : Int) :
    |x - nearest x| ≤ |x - n * spacing x| := by
  have hu := spacing_pos x
  have hscale (k : Int) : |x - k * spacing x| = |x / spacing x - k| * spacing x := by
    rw [← abs_of_pos hu, ← abs_mul, abs_of_pos hu, sub_mul, div_mul_cancel₀ x hu.ne']
  rw [nearest, if_neg hx, hscale, hscale]
  exact mul_le_mul_of_nonneg_right (abs_sub_roundHalfEven_le _ n) hu.le

/-- A power of two from the one under `x` on is a multiple of the spacing at `x`, unless it is too small to be a binary
fraction; so is every fraction whose last bit is no finer than the spacing. -/
private theorem exists_eq_mul_spacing {x : Rat} {e : Int} (m : Int) (he : max (binaryLog x - 52) (-1074) ≤ e) :
    ∃ n : Int, (m : Rat) * (2 : Rat) ^ e = n * spacing x := by
  obtain ⟨k, hk⟩ := Int.le.dest he
  refine ⟨m * 2 ^ k, ?_⟩
  rw [spacing, ← hk, zpow_add₀ two_ne_zero, zpow_natCast]
  push_cast
  ring

theorem isBinaryFraction_nearest (x : Rat) : IsBinaryFraction (nearest x) := by
  unfold nearest
  split
  · exact ⟨0, 0, by decide, by decide, by simp⟩
  · rename_i hx
    refine ⟨_, _, ?_, le_max_right _ _, rfl⟩
    refine abs_roundHalfEven_le (n := 2 ^ 53) ?_
    rw [abs_div, abs_of_pos (spacing_pos x), div_le_iff₀ (spacing_pos x)]
    calc |x| ≤ (2 : Rat) ^ (binaryLog x + 1) := (lt_zpow_binaryLog hx).le
      _ ≤ (2 : Rat) ^ (53 + max (binaryLog x - 52) (-1074)) := zpow_le_zpow_right₀ one_le_two (by omega)
      _ = ((2 ^ 53 : Int) : Rat) * spacing x := by rw [zpow_add₀ two_ne_zero, spacing]; rfl

/-- No binary fraction is closer than the nearest one. -/
theorem abs_sub_nearest_le {f : Rat} (hf : IsBinaryFraction f) (x : Rat) : |x - nearest x| ≤ |x - f| := by
  by_cases hx : x = 0
  · rw [hx, nearest_zero]
    simp
  obtain ⟨m, e, hm, he, rfl⟩ := hf
  by_cases hgrid : max (binaryLog x - 52) (-1074) ≤ e
  · obtain ⟨n, hn⟩ := exists_eq_mul_spacing m hgrid
    rw [hn]
    exact abs_sub_nearest_le_multiple hx n
  · -- the fraction has a finer grid, so it does not reach the power of two under `x`, which is on the grid of `x`
    have hlog : e < binaryLog x - 52 := by omega
    have hsmall : |(m : Rat) * (2 : Rat) ^ e| ≤ (2 : Rat) ^ binaryLog x := by
      rw [abs_mul, abs_of_pos (by positivity : (0 : Rat) < 2 ^ e)]
      calc |(m : Rat)| * (2 : Rat) ^ e ≤ (2 : Rat) ^ (53 : Int) * (2 : Rat) ^ e := by
            gcongr
            exact_mod_cast hm
        _ = (2 : Rat) ^ (53 + e) := (zpow_add₀ two_ne_zero _ _).symm
        _ ≤ (2 : Rat) ^ binaryLog x := zpow_le_zpow_right₀ one_le_two (by omega)
    have hpower := zpow_binaryLog_le hx
    obtain ⟨hl, hr⟩ := abs_le.1 hsmall
    rcases lt_or_gt_of_ne hx with hneg | hpos
    · obtain ⟨n, hn⟩ := exists_eq_mul_spacing (x := x) (e := binaryLog x) (-1) (by omega)
      refine (abs_sub_nearest_le_multiple hx n).trans ?_
      rw [← hn]
      rw [abs_of_neg hneg] at hpower
      push_cast
      rw [abs_of_nonpos (by linarith), abs_of_nonpos (by linarith)]
      linarith
    · obtain ⟨n, hn⟩ := exists_eq_mul_spacing (x := x) (e := binaryLog x) 1 (by omega)
      refine (abs_sub_nearest_le_multiple hx n).trans ?_
      rw [← hn]
      rw [abs_of_pos hpos] at hpower
      push_cast
      rw [abs_of_nonneg (by linarith), abs_of_nonneg (by linarith)]
      linarith

theorem nearest_mono {x y : Rat} (h : x ≤ y) : nearest x ≤ nearest y := by
  by_contra hc
  have hx := add_le_two_mul (not_le.1 hc) (abs_sub_nearest_le (isBinaryFraction_nearest y) x)
  have hy := two_mul_le_add (not_le.1 hc) (abs_sub_nearest_le (isBinaryFraction_nearest x) y)
  obtain rfl : x = y := by linarith
  exact hc le_rfl

/-- A binary fraction is its own nearest one. -/
theorem nearest_eq_self {f : Rat} (hf : IsBinaryFraction f) : nearest f = f := by
  have h := abs_sub_nearest_le hf f
  rw [sub_self, abs_zero, abs_nonpos_iff, sub_eq_zero] at h
  exact h.symm

theorem nearest_intCast {n : Int} (h : |n| ≤ 2 ^ 53) : nearest n = n :=
  nearest_eq_self (isBinaryFraction_intCast h)

theorem nearest_nonneg {x : Rat} (h : 0 ≤ x) : 0 ≤ nearest x :=
  nearest_zero ▸ nearest_mono h

/-- Rounding does not pass a binary fraction on either side of zero. -/
theorem abs_nearest_le {x y : Rat} (hy : IsBinaryFraction y) (h : |x| ≤ y) : |nearest x| ≤ y := by
  obtain ⟨hlower, hupper⟩ := abs_le.1 h
  exact abs_le.2 ⟨nearest_eq_self hy.neg ▸ nearest_mono hlower, nearest_eq_self hy ▸ nearest_mono hupper⟩

/-- A number up to `2 ^ 53` times a power of two is moved by no more than half of that power. -/
theorem abs_sub_nearest_le_half {x : Rat} {e : Int} (he : -1074 ≤ e) (h : |x| ≤ 2 ^ 53 * (2 : Rat) ^ e) :
    |x - nearest x| ≤ (2 : Rat) ^ e / 2 := by
  have hpow : (0 : Rat) < (2 : Rat) ^ e := by positivity
  have hscaled : |x / (2 : Rat) ^ e| ≤ ((2 ^ 53 : Int) : Rat) := by
    rw [abs_div, abs_of_pos hpow, div_le_iff₀ hpow]
    exact_mod_cast h
  have hmultiple : IsBinaryFraction (roundHalfEven (x / (2 : Rat) ^ e) * (2 : Rat) ^ e) :=
    ⟨_, e, abs_roundHalfEven_le hscaled, he, rfl⟩
  calc |x - nearest x|
      ≤ |x - roundHalfEven (x / (2 : Rat) ^ e) * (2 : Rat) ^ e| := abs_sub_nearest_le hmultiple x
    _ = |x / (2 : Rat) ^ e - roundHalfEven (x / (2 : Rat) ^ e)| * (2 : Rat) ^ e := by
        rw [← abs_of_pos hpow, ← abs_mul, abs_of_pos hpow, sub_mul, div_mul_cancel₀ x hpow.ne']
    _ ≤ 1 / 2 * (2 : Rat) ^ e := by
        gcongr
        exact abs_sub_roundHalfEven_le_half _
    _ = (2 : Rat) ^ e / 2 := by ring

/-! ### Rounding scores -/

theorem roundHalfUp_mono {x y : Rat} (h : x ≤ y) : roundHalfUp x ≤ roundHalfUp y :=
  Int.floor_mono (nearest_mono (by linarith [nearest_mono h]))

/-- A number that is at most a quarter off an integer is rounded to it. -/
theorem roundHalfUp_eq {x : Rat} {n : Int} (hn : |n| ≤ 2 ^ 50) (h : |x - n| ≤ 1 / 4) : roundHalfUp x = n := by
  have hquarters {m : Int} (hm : |m| ≤ 2 ^ 53) : nearest (m / 4) = m / 4 :=
    nearest_eq_self ⟨m, -2, hm, by decide, by norm_num [div_eq_mul_inv]⟩
  obtain ⟨hlower, hupper⟩ := abs_le.1 h
  obtain ⟨hlower', hupper'⟩ := abs_le.1 hn
  have hnear : ((4 * n - 1 : Int) : Rat) / 4 ≤ nearest x ∧ nearest x ≤ ((4 * n + 1 : Int) : Rat) / 4 := by
    constructor
    · rw [← hquarters (abs_le.2 (by omega))]
      exact nearest_mono (by push_cast; linarith)
    · rw [← hquarters (abs_le.2 (by omega))]
      exact nearest_mono (by push_cast; linarith)
  push_cast at hnear
  change ⌊nearest (nearest x + 1 / 2)⌋ = n
  rw [Int.floor_eq_iff]
  constructor
  · rw [← nearest_intCast (n := n) (by omega)]
    exact nearest_mono (by linarith [hnear.1])
  · calc nearest (nearest x + 1 / 2)
        ≤ nearest (((4 * n + 3 : Int) : Rat) / 4) := nearest_mono (by push_cast; linarith [hnear.2])
      _ = ((4 * n + 3 : Int) : Rat) / 4 := hquarters (abs_le.2 (by omega))
      _ < n + 1 := by push_cast; linarith

theorem percent_mono {x y : Rat} (h : x ≤ y) : percent x ≤ percent y :=
  roundHalfUp_mono (by linarith)

theorem percent_zero : percent 0 = 0 := by decide +kernel

theorem percent_one : percent 1 = 100 := by decide +kernel

/-- A share of a whole, rounded, is a percentage from `0` to `100`. -/
theorem percent_nearest_mem_Icc {x : Rat} (hzero : 0 ≤ x) (hone : x ≤ 1) : percent (nearest x) ∈ Set.Icc 0 100 := by
  have hself : nearest 1 = 1 := nearest_intCast (n := 1) (by decide)
  exact ⟨percent_zero ▸ percent_mono (nearest_nonneg hzero), percent_one ▸ percent_mono (hself ▸ nearest_mono hone)⟩

theorem percent_ratio_mem_Icc {part whole : Nat} (h : part ≤ whole) : percent (ratio part whole) ∈ Set.Icc 0 100 := by
  unfold ratio
  split
  · rw [percent_zero]
    decide
  · exact percent_nearest_mem_Icc (by positivity) (div_le_one_of_le₀ (by exact_mod_cast h) (by positivity))

end Semblance
