import Semblance.Number.Decimal

/-!
# Numbers

A number is a whole number or a binary number of 64 bits, as in the JSON texts that the library writes: `1` and `1.0`
are different numbers of equal value.  Arithmetic on two whole numbers is exact; as soon as a binary number takes
part, a whole number counts as the binary fraction closest to it and the result is rounded.  Rounding to an integer
is defined for finite numbers in range; the checked forms say what is wrong otherwise.
-/

namespace Semblance

/-- Why a number has no integer or no binary fraction. -/
inductive ArithmeticError where
  | undefinedToInteger
  | infinityToInteger
  | wholeTooLarge
  | quotientTooLarge
  | divisionByZero
  deriving DecidableEq, Repr

/-- What is said about the error. -/
def ArithmeticError.message : ArithmeticError → String
  | undefinedToInteger => "cannot convert float NaN to integer"
  | infinityToInteger => "cannot convert float infinity to integer"
  | wholeTooLarge => "int too large to convert to float"
  | quotientTooLarge => "integer division result too large for a float"
  | divisionByZero => "division by zero"

/-- A whole number or a binary number. -/
inductive Number where
  | whole (n : Int)
  | real (x : Binary64)
  deriving DecidableEq, Repr, Inhabited

namespace Number

/-- The exact value of a finite number. -/
def value : Number → Rat
  | whole n => n
  | real x => x.value

/-- The text of a number. -/
def text : Number → String
  | whole n => toString n
  | real x => x.text

/-- Whether a number is less than a whole number; the undefined number is not. -/
def isBelow (n : Int) : Number → Bool
  | whole m => decide (m < n)
  | real (.finite x) => decide (x < n)
  | real .negativeZero => decide (0 < n)
  | real (.infinity negative) => negative
  | real .undefined => false

/-- Whether a number is greater than a whole number; the undefined number is not. -/
def isAbove (n : Int) : Number → Bool
  | whole m => decide (n < m)
  | real (.finite x) => decide (n < x)
  | real .negativeZero => decide (n < 0)
  | real (.infinity negative) => !negative
  | real .undefined => false

@[simp] theorem isBelow_whole (m n : Int) : (whole m).isBelow n = decide (m < n) := rfl

@[simp] theorem isAbove_whole (m n : Int) : (whole m).isAbove n = decide (n < m) := rfl

/-- The product of two finite numbers. -/
def mul : Number → Number → Number
  | whole a, whole b => whole (a * b)
  | a, b => real (.finite (nearest (nearest a.value * nearest b.value)))

/-- The sum of two finite numbers. -/
def add : Number → Number → Number
  | whole a, whole b => whole (a + b)
  | a, b => real (.finite (nearest (nearest a.value + nearest b.value)))

/-- The binary number that a number counts as, unless it is out of range. -/
def binary? : Number → Except ArithmeticError Binary64
  | whole n => if Binary64.overflows n then .error .wholeTooLarge else .ok (.finite (nearest n))
  | real x => .ok x

/-- The product of two numbers.  That of binary numbers may be infinite or undefined. -/
def mul? : Number → Number → Except ArithmeticError Number
  | whole a, whole b => .ok (whole (a * b))
  | a, b => do return real ((← a.binary?).mul (← b.binary?))

/-- The sum of two numbers.  That of binary numbers may be infinite or undefined. -/
def add? : Number → Number → Except ArithmeticError Number
  | whole a, whole b => .ok (whole (a + b))
  | a, b => do return real ((← a.binary?).add (← b.binary?))

/-- The quotient of two whole numbers, as a binary number. -/
def quotient? (n d : Int) : Except ArithmeticError Number :=
  if d = 0 then .error .divisionByZero
  else if Binary64.overflows ((n : Rat) / (d : Rat)) then .error .quotientTooLarge
  else .ok (real (.finite (nearest ((n : Rat) / (d : Rat)))))

/-- Why a number is not finite, if it is not. -/
def defect? : Number → Option ArithmeticError
  | real .undefined => some .undefinedToInteger
  | real (.infinity _) => some .infinityToInteger
  | _ => none

/-- Rounds a number times a whole factor to an integer, unless the number is not finite or the product leaves the
range of binary numbers. -/
def roundScaled? (factor : Int) (n : Number) : Except ArithmeticError Int :=
  match n.defect? with
  | some e => .error e
  | none =>
    if Binary64.overflows (n.value * factor) then
      .error (match n with | whole _ => .wholeTooLarge | real _ => .infinityToInteger)
    else .ok (roundHalfUp (n.value * factor))

/-- Rounds a number to an integer, a half upwards. -/
def roundHalfUp? : Number → Except ArithmeticError Int :=
  roundScaled? 1

/-- A ratio as an integer percentage. -/
def percent? : Number → Except ArithmeticError Int :=
  roundScaled? 100

end Number

end Semblance
