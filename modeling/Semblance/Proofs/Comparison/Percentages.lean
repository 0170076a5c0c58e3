import Mathlib.Order.Interval.Finset.Nat
import Semblance.Proofs.Comparison.Weighing
import Semblance.Proofs.Number.Midpoints

/-!
# Rounding of percentages

A ratio of counts becomes a percentage in three rounded steps, the quotient, the product with `100` and the sum with a
half, and then loses its fraction.  All steps are monotone, so each percentage has a least binary fraction that is
scored so high, and a ratio is scored so high from a limit on, the middle before that fraction
(`le_percent_nearest_iff`).  Exact rounding has its limits at the halves between percentages.  The two limits are so
close that a quotient by up to `2 ^ 45` is not between them, unless it is the half itself; four of the hundred halves
come before the limit and are rounded down (`percent_ratio_eq_iff`).
-/

namespace Semblance

/-! ### Limits between percentages -/

/-- The ratio in the middle between `k - 1` and `k` per cent. -/
def halfPercent (k : Nat) : Rat :=
  (2 * k - 1) / 200

/-- The percentages whose least binary fraction comes right after the closest one to the half. -/
def latePercents : List Nat :=
  [15, 29, 57, 58]

/-- The percentages whose least binary fraction comes right before the closest one to the half. -/
def earlyPercents : List Nat :=
  [1, 3, 9, 12, 34, 41, 47, 68, 69, 80, 81, 93, 94]

/-- The distance between the binary fractions just below the half. -/
def entrySpacing (k : Nat) : Rat :=
  spacing (halfPercent k - spacing (halfPercent k))

/-- The significand of the least binary fraction that is scored `k` or more. -/
def entrySignificand (k : Nat) : Int :=
  let closest := roundHalfEven (halfPercent k / entrySpacing k)
  if k ∈ earlyPercents then closest - 1 else if k ∈ latePercents then closest + 1 else closest

/-- The middle between the least binary fraction that is scored `k` or more and the fraction before it. -/
def limit (k : Nat) : Rat :=
  (entrySignificand k - 1 / 2) * entrySpacing k

/-- A ratio is past the limit, or on it where rounding goes upwards. -/
def Enters (k : Nat) (x : Rat) : Prop :=
  limit k < x ∨ x = limit k ∧ Even (entrySignificand k)

instance (k : Nat) (x : Rat) : Decidable (Enters k x) :=
  inferInstanceAs (Decidable (_ ∨ _))

theorem entry_bounds : ∀ k ∈ Finset.Icc 1 100,
    2 ^ 52 < entrySignificand k ∧ entrySignificand k ≤ 2 ^ 53 ∧
      percent ((entrySignificand k - 1) * entrySpacing k) < k ∧
      k ≤ percent (entrySignificand k * entrySpacing k) := by
  decide +kernel

theorem limit_near_half : ∀ k ∈ Finset.Icc 1 100,
    (limit k - halfPercent k) * (200 * 2 ^ 45) < 1 ∧ (halfPercent k - limit k) * (200 * 2 ^ 45) < 1 := by
  decide +kernel

/-- A half is rounded up unless it comes before its limit. -/
theorem enters_halfPercent_iff : ∀ k ∈ Finset.Icc 1 100, Enters k (halfPercent k) ↔ k ∉ latePercents := by
  decide +kernel

variable {k n d : Nat}

theorem le_percent_nearest_iff (hk : k ∈ Finset.Icc 1 100) (x : Rat) : k ≤ percent (nearest x) ↔ Enters k x := by
  obtain ⟨hlow, hhigh, hbefore, hentry⟩ := entry_bounds k hk
  have hreach : entrySignificand k * entrySpacing k ≤ nearest x ↔ Enters k x :=
    le_nearest_iff hlow hhigh (le_max_right _ _) x
  rw [← hreach]
  constructor
  · intro h
    by_contra hc
    have hle : nearest x ≤ (entrySignificand k - 1) * entrySpacing k :=
      (isBinaryFraction_nearest x).le_pred hlow (not_le.1 hc)
    have hscore := percent_mono hle
    omega
  · intro h
    exact hentry.trans (percent_mono h)

/-! ### Exact percentages -/

/-- The exact percentage, a half rounded up, is `k` or more from the half on. -/
theorem le_div_iff_halfPercent_le (hd : 0 < d) :
    k ≤ (200 * n + d) / (2 * d) ↔ halfPercent k ≤ (n : Rat) / d := by
  have hd' : (0 : Rat) < d := by exact_mod_cast hd
  have hcast : (2 * k - 1 : Rat) * d ≤ n * 200 ↔ k * (2 * d) ≤ 200 * n + d := by
    rw [← @Nat.cast_le Rat]
    push_cast
    constructor <;> intro h <;> linarith
  rw [Nat.le_div_iff_mul_le (by omega), halfPercent, div_le_div_iff₀ (by norm_num) hd', hcast]

theorem div_mem_Icc (hd : 0 < d) (h : n ≤ d) : (((200 * n + d) / (2 * d) : Nat) : Int) ∈ Set.Icc 0 100 := by
  have hlt : (200 * n + d) / (2 * d) < 101 := by
    rw [Nat.div_lt_iff_lt_mul (by omega)]
    omega
  exact ⟨Int.natCast_nonneg _, by omega⟩

theorem eq_iff_forall_le {a b : Int} (ha : a ∈ Set.Icc 0 100) (hb : b ∈ Set.Icc 0 100) :
    a = b ↔ ∀ k ∈ Finset.Icc 1 100, ((k : Nat) ≤ a ↔ k ≤ b) := by
  constructor
  · intro h k _
    rw [h]
  · intro h
    obtain ⟨ha₀, ha₁⟩ := ha
    obtain ⟨hb₀, hb₁⟩ := hb
    rcases lt_trichotomy a b with hlt | heq | hlt
    · have hstep := h b.toNat (Finset.mem_Icc.2 (by omega))
      omega
    · exact heq
    · have hstep := h a.toNat (Finset.mem_Icc.2 (by omega))
      omega

/-- The percentage of a ratio is exact if the ratio is on the same side of each limit and of each half. -/
theorem percent_ratio_eq_iff_forall (hd : 0 < d) (h : n ≤ d) :
    percent (ratio n d) = ((200 * n + d) / (2 * d) : Nat) ↔
      ∀ k ∈ Finset.Icc 1 100, (Enters k (n / d) ↔ halfPercent k ≤ (n : Rat) / d) := by
  rw [eq_iff_forall_le (percent_ratio_mem_Icc h) (div_mem_Icc hd h)]
  refine forall₂_congr fun k hk => ?_
  rw [ratio, if_neg hd.ne', le_percent_nearest_iff hk, Nat.cast_le, le_div_iff_halfPercent_le hd]

/-! ### Quotients of small numbers -/

/-- What is away from a point by one part of many is further away than what is closer than one part of more. -/
private theorem lt_of_parts {gap limit parts bound : Rat} (hparts : 0 < parts) (hbound : parts ≤ bound)
    (hgap : 1 ≤ gap * parts) (hlimit : limit * bound < 1) : 0 < gap ∧ limit < gap := by
  have hpos : 0 < gap := (mul_pos_iff_of_pos_right hparts).1 (by linarith)
  have hlt : limit * bound < gap * bound := by
    calc limit * bound < 1 := hlimit
      _ ≤ gap * parts := hgap
      _ ≤ gap * bound := by gcongr
  exact ⟨hpos, lt_of_mul_lt_mul_right hlt (hparts.le.trans hbound)⟩

/-- A quotient other than the half is on the same side of the limit and of the half. -/
theorem enters_iff_of_ne (hk : k ∈ Finset.Icc 1 100) (hd : 0 < d) (hsmall : d ≤ 2 ^ 45)
    (hne : (n : Rat) / d ≠ halfPercent k) : Enters k (n / d) ↔ halfPercent k ≤ (n : Rat) / d := by
  have hparts : (0 : Rat) < 200 * d := by exact_mod_cast (by omega : 0 < 200 * d)
  have hbound : (200 * d : Rat) ≤ 200 * 2 ^ 45 := by exact_mod_cast (by omega : 200 * d ≤ 200 * 2 ^ 45)
  obtain ⟨hafter, hbefore⟩ := limit_near_half k hk
  -- the quotient is a whole number of parts away from the half
  have hdiff : ((n : Rat) / d - halfPercent k) * (200 * d) = (200 * n - (2 * k - 1) * d : Int) := by
    have hd' : (d : Rat) ≠ 0 := by exact_mod_cast hd.ne'
    rw [halfPercent]
    push_cast
    field_simp
  generalize (200 * n - (2 * k - 1) * d : Int) = away at hdiff
  have haway : away ≠ 0 := by
    intro h
    rw [h, Int.cast_zero, mul_eq_zero, sub_eq_zero] at hdiff
    rcases hdiff with h | h
    · exact hne h
    · exact hparts.ne' h
  rcases lt_or_gt_of_ne haway with hneg | hpos
  · have hle : (away : Rat) ≤ -1 := by exact_mod_cast (by omega : away ≤ -1)
    obtain ⟨hhalf, hlimit⟩ := lt_of_parts hparts hbound
      (by linarith : 1 ≤ (halfPercent k - (n : Rat) / d) * (200 * d)) hbefore
    have hlt : (n : Rat) / d < limit k := by linarith
    simp only [Enters, hlt.not_gt, hlt.ne, (sub_pos.1 hhalf).not_ge, false_and, or_self]
  · have hle : (1 : Rat) ≤ away := by exact_mod_cast (by omega : 1 ≤ away)
    obtain ⟨hhalf, hlimit⟩ := lt_of_parts hparts hbound
      (by linarith : 1 ≤ ((n : Rat) / d - halfPercent k) * (200 * d)) hafter
    have hlt : limit k < (n : Rat) / d := by linarith
    simp only [Enters, hlt, (sub_pos.1 hhalf).le, true_or]

theorem percent_nearest_late : ∀ k ∈ latePercents, percent (nearest (halfPercent k)) = k - 1 := by
  decide +kernel

theorem div_eq_halfPercent_iff (hd : 0 < d) : (n : Rat) / d = halfPercent k ↔ 200 * n + d = k * (2 * d) := by
  have hd' : (d : Rat) ≠ 0 := by exact_mod_cast hd.ne'
  rw [halfPercent, div_eq_div_iff hd' (by norm_num), ← @Nat.cast_inj Rat]
  push_cast
  constructor <;> intro h <;> linarith

/-- For divisors up to `2 ^ 45` the percentage is exact but for four quotients, where it is one less. -/
theorem percent_ratio_of_small (hd : 0 < d) (h : n ≤ d) (hsmall : d ≤ 2 ^ 45) :
    percent (ratio n d) = ((200 * n + d) / (2 * d) : Nat) -
      if 200 * n ∈ [29 * d, 57 * d, 113 * d, 115 * d] then 1 else 0 := by
  have hmem : 200 * n ∈ [29 * d, 57 * d, 113 * d, 115 * d] ↔ ∃ k ∈ latePercents, (n : Rat) / d = halfPercent k := by
    simp only [latePercents, div_eq_halfPercent_iff hd, List.mem_cons, List.not_mem_nil, or_false,
      exists_eq_or_imp, exists_eq_left]
    omega
  by_cases hlate : ∃ k ∈ latePercents, (n : Rat) / d = halfPercent k
  · rw [if_pos (hmem.2 hlate)]
    obtain ⟨k, hk, hhalf⟩ := hlate
    have hexact : (200 * n + d) / (2 * d) = k :=
      Nat.div_eq_of_eq_mul_left (by omega) ((div_eq_halfPercent_iff hd).1 hhalf)
    rw [ratio, if_neg hd.ne', hhalf, percent_nearest_late k hk, hexact]
  · rw [if_neg (mt hmem.1 hlate), sub_zero, percent_ratio_eq_iff_forall hd h]
    intro k hk
    by_cases hhalf : (n : Rat) / d = halfPercent k
    · have hup : k ∉ latePercents := fun hk' => hlate ⟨k, hk', hhalf⟩
      rw [hhalf, enters_halfPercent_iff k hk]
      exact iff_of_true hup le_rfl
    · exact enters_iff_of_ne hk hd hsmall hhalf

-- a little above `2 ^ 45` there is a quotient between a limit and its half, here below 79.5 per cent
example : percent (ratio 31406681611945 39505259889239) = 80 ∧
    (200 * 31406681611945 + 39505259889239) / (2 * 39505259889239) = 79 := by
  decide +kernel

/-! ### Percentages of counts -/

theorem percent?_quotient? (hd : 0 < d) (h : n ≤ d) :
    (Number.quotient? n d).bind Number.percent? = .ok (percent (ratio n d)) := by
  have hd' : (d : Int) ≠ 0 := by exact_mod_cast hd.ne'
  have hquot : (n : Rat) / d ∈ Set.Icc 0 1 :=
    ⟨by positivity, div_le_one_of_le₀ (by exact_mod_cast h) (by positivity)⟩
  have hnear := nearest_mem_Icc (by decide +kernel) hquot
  have hbound : nearest ((n : Rat) / d) * (100 : Int) ∈ Set.Icc 0 1000 := by
    push_cast
    exact ⟨by linarith [hnear.1], by linarith [hnear.2]⟩
  have hsmall : (n : Rat) / d ∈ Set.Icc 0 1000 := ⟨hquot.1, hquot.2.trans (by norm_num)⟩
  have hratio : ratio n d = nearest ((n : Rat) / d) := by rw [ratio, if_neg hd.ne']
  have hquotient : Number.quotient? n d = .ok (.real (.finite (ratio n d))) := by
    rw [Number.quotient?, if_neg hd', Int.cast_natCast, Int.cast_natCast, overflows_eq_false hsmall,
      if_neg (by decide), hratio]
  have hsteps : Number.percent? (.real (.finite (ratio n d))) =
      if Binary64.overflows (ratio n d * (100 : Int)) then .error .infinityToInteger
      else .ok (roundHalfUp (ratio n d * (100 : Int))) := rfl
  rw [hquotient, Except.bind, hsteps, hratio, overflows_eq_false hbound, if_neg (by decide)]
  rfl

/-- The percentage of a quotient of counts is always found.  It is the exact percentage, a half rounded up, if and only
if the quotient is on the same side of each limit and of each half; up to `2 ^ 45` it is the exact percentage but for
four halves, which are rounded down. -/
theorem percent_ratio_eq_iff {n d : Nat} (hd : 0 < d) (h : n ≤ d) :
    (Number.quotient? n d).bind Number.percent? = .ok (percent (ratio n d)) ∧
    (percent (ratio n d) = ((200 * n + d) / (2 * d) : Nat) ↔
      ∀ k ∈ Finset.Icc 1 100, (Enters k (n / d) ↔ halfPercent k ≤ (n : Rat) / d)) ∧
    (d ≤ 2 ^ 45 → percent (ratio n d) = ((200 * n + d) / (2 * d) : Nat) -
      if 200 * n ∈ [29 * d, 57 * d, 113 * d, 115 * d] then 1 else 0) :=
  ⟨percent?_quotient? hd h, percent_ratio_eq_iff_forall hd h, percent_ratio_of_small hd h⟩

theorem percent_ratio_eq_iff_eighths :
    0 < 8 ∧ 5 ≤ 8 ∧ percent (ratio 5 8) = 63 := by
  have h := (percent_ratio_eq_iff (n := 5) (d := 8) (by decide) (by decide)).2.2 (by decide)
  exact ⟨by decide, by decide, h⟩

/-- Exactly 57.5 per cent are scored 57. -/
theorem percent_ratio_rounds_down :
    23 ≤ 40 ∧ (200 * 23 + 40) / (2 * 40) = 58 ∧ percent (ratio 23 40) = 57 := by
  decide +kernel

end Semblance
