import Semblance.Number.Binary64

/-!
# Decimal text of binary numbers

A binary number is written with the fewest decimal digits that read back as the same number; of several such
decimals the closest is taken.  Exponents from `-4` to `15` are written out, others with an exponent mark.  `fixed1`
writes a number with one digit after the point.
-/

namespace Semblance

/-- The decimal number `digits * 10 ^ exponent`. -/
structure Decimal where
  digits : Nat
  exponent : Int
  deriving DecidableEq, Repr

namespace Decimal

/-- The exact value. -/
def value (d : Decimal) : Rat :=
  d.digits * (10 : Rat) ^ d.exponent

/-- The exponent of the largest power of ten that is no more than `x`, for positive `x`. -/
def log (x : Rat) : Int :=
  let e := binaryLog x * 30103 / 100000
  if (10 : Rat) ^ (e + 1) ≤ x then e + 1 else if (10 : Rat) ^ e ≤ x then e else e - 1

/-- The decimal on the grid of step `10 ^ exponent` that is closest to `x` among those that read back as `x`. -/
def onGrid? (x : Rat) (exponent : Int) : Option Decimal :=
  let below : Decimal := ⟨(x / (10 : Rat) ^ exponent).floor.toNat, exponent⟩
  let above : Decimal := ⟨below.digits + 1, exponent⟩
  match decide (nearest below.value = x), decide (nearest above.value = x) with
  | true, true =>
    if x - below.value < above.value - x then some below
    else if above.value - x < x - below.value then some above
    else if below.digits % 2 = 0 then some below
    else some above
  | true, false => some below
  | false, true => some above
  | false, false => none

/-- The shortest decimal that reads back as the positive binary number `x`.  The first grid is coarser than `x`, for
numbers just below a power of ten that the power reads back as. -/
def shortest (x : Rat) : Decimal :=
  let e := log x + 1
  ((List.range 18).findSome? fun (n : Nat) => onGrid? x (e - (n : Int))).getD ⟨0, 0⟩

/-- The digits and the exponent of a shortest decimal as text: the point stands after the first `point` digits when
that place is near the digits, and after the first digit with an exponent otherwise. -/
def text (d : Decimal) : String :=
  let shown := Nat.toDigits 10 d.digits
  let point : Int := d.exponent + shown.length
  if -4 < point ∧ point ≤ 16 then
    if point ≤ 0 then "0." ++ String.ofList (List.replicate (-point).toNat '0' ++ shown)
    else if shown.length ≤ point.toNat then
      String.ofList (shown ++ List.replicate (point.toNat - shown.length) '0') ++ ".0"
    else String.ofList (shown.take point.toNat ++ '.' :: shown.drop point.toNat)
  else
    let power := point - 1
    let sign := if power < 0 then "-" else "+"
    let magnitude := Nat.toDigits 10 power.natAbs
    let padded := if magnitude.length < 2 then '0' :: magnitude else magnitude
    let fraction := if shown.length = 1 then [] else '.' :: shown.drop 1
    String.ofList (shown.take 1 ++ fraction) ++ "e" ++ sign ++ String.ofList padded

end Decimal

namespace Binary64

/-- The text of a number: the shortest decimal that reads back. -/
def text : Binary64 → String
  | finite x =>
    if x = 0 then "0.0"
    else if x < 0 then "-" ++ (Decimal.shortest (-x)).text
    else (Decimal.shortest x).text
  | negativeZero => "-0.0"
  | infinity negative => if negative then "-inf" else "inf"
  | undefined => "nan"

end Binary64

/-- A number that is not negative, with one digit after the point; a half goes to the even digit. -/
def fixed1 (x : Rat) : String :=
  let tenths := (roundHalfEven (x * 10)).toNat
  toString (tenths / 10) ++ "." ++ toString (tenths % 10)

end Semblance
