/-!
# Rounding to binary fractions

The scores are computed in numbers of 53 significant bits.  `nearest` rounds a rational number to the closest such
number and takes the even one of two that are equally close; the spacing of the numbers stops shrinking at
`2 ^ (-1074)`, and `nearest` sets no bound for large numbers.  `roundHalfUp` and `percent` give the integer scores:
each step of them is rounded by `nearest`, so a ratio just off a half may fall on either side of it.
-/

namespace Semblance

/-- The integer closest to `x`, the even one of two that are equally close. -/
def roundHalfEven (x : Rat) : Int :=
  let low := x.floor
  let rest := x - low
  if rest < 1 / 2 then low
  else if 1 / 2 < rest then low + 1
  else if low % 2 = 0 then low
  else low + 1

/-- The exponent of the largest power of two that is no more than the absolute value of `x`, for `x` other than
zero. -/
def binaryLog (x : Rat) : Int :=
  let e : Int := (x.num.natAbs.log2 : Int) - (x.den.log2 : Int)
  if (2 : Rat) ^ e ≤ x.abs then e else e - 1

/-- The distance between neighbouring binary fractions of 53 bits at `x`. -/
def spacing (x : Rat) : Rat :=
  (2 : Rat) ^ max (binaryLog x - 52) (-1074)

/-- The binary fraction of 53 bits that is closest to `x`. -/
def nearest (x : Rat) : Rat :=
  if x = 0 then 0 else roundHalfEven (x / spacing x) * spacing x

/-- Rounds to an integer, a half upwards, with the half added in binary fractions. -/
def roundHalfUp (x : Rat) : Int :=
  (nearest (nearest x + 1 / 2)).floor

/-- A ratio as an integer percentage. -/
def percent (ratio : Rat) : Int :=
  roundHalfUp (ratio * 100)

/-- The ratio of two counts as a binary fraction, `0` when the second is zero. -/
def ratio (part whole : Nat) : Rat :=
  if whole = 0 then 0 else nearest ((part : Rat) / (whole : Rat))

theorem nearest_zero : nearest 0 = 0 := by simp [nearest]

end Semblance
