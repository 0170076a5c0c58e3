/-!
# Hexadecimal numbers
-/

namespace Semblance.Text

/-- A number in hexadecimal, with at least `width` digits. -/
def hex (width n : Nat) : List Char :=
  let digits := Nat.toDigits 16 n
  List.replicate (width - digits.length) '0' ++ digits

end Semblance.Text
