import Semblance.Number.Rounding

/-!
# Binary numbers of 64 bits

The numbers of the binary interchange format of 64 bits: binary fractions of 53 significant bits below `2 ^ 1024`, a
negative zero, two infinities and the undefined number.
-/

namespace Semblance

/-- A number of the 64-bit binary format.  A finite number is held as its exact value. -/
inductive Binary64 where
  | finite (value : Rat)
  | negativeZero
  | infinity (negative : Bool)
  | undefined
  deriving DecidableEq, Repr, Inhabited

namespace Binary64

/-- Whether `x` rounds to a number outside the finite range. -/
def overflows (x : Rat) : Bool :=
  decide ((2 : Rat) ^ (1024 : Int) ≤ (nearest x).abs)

/-- The closest number to `x`; an infinity where `x` is out of range. -/
def ofRat (x : Rat) : Binary64 :=
  if overflows x then infinity (decide (x < 0)) else finite (nearest x)

/-- The exact value of a finite number; `0` for the others. -/
def value : Binary64 → Rat
  | finite x => x
  | _ => 0

/-- Whether a number is below zero. -/
def isNegative : Binary64 → Bool
  | finite x => decide (x < 0)
  | negativeZero => true
  | infinity negative => negative
  | undefined => false

/-- The product.  A zero counts as positive. -/
def mul : Binary64 → Binary64 → Binary64
  | undefined, _ | _, undefined => undefined
  | infinity negative, x | x, infinity negative =>
    match x with
    | infinity other => infinity (negative != other)
    | x => if x.value = 0 then undefined else infinity (negative != x.isNegative)
  | x, y => ofRat (x.value * y.value)

/-- The sum.  A zero counts as positive. -/
def add : Binary64 → Binary64 → Binary64
  | undefined, _ | _, undefined => undefined
  | infinity negative, infinity other => if negative = other then infinity negative else undefined
  | infinity negative, _ | _, infinity negative => infinity negative
  | x, y => ofRat (x.value + y.value)

/-- The 64 bits of a number, as a natural number. -/
def bits : Binary64 → Nat
  | finite x =>
    if x = 0 then 0
    else
      let e := max (binaryLog x) (-1022)
      let significand := (x.abs / (2 : Rat) ^ (e - 52)).floor.toNat
      let sign := if x < 0 then 0x8000000000000000 else 0
      if significand < 0x10000000000000 then sign + significand
      else sign + (e + 1023).toNat * 0x10000000000000 + (significand - 0x10000000000000)
  | negativeZero => 0x8000000000000000
  | infinity negative => if negative then 0xFFF0000000000000 else 0x7FF0000000000000
  | undefined => 0x7FF8000000000000

end Binary64

end Semblance
