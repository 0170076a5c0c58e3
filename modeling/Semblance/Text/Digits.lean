import Semblance.Text.Blank

/-!
# Decimal digits

The decimal digits of all scripts, and the integers that are written with them.  An integer has an optional sign
and digits, single underscores may stand between digits, and white space may surround it all.
-/

namespace Semblance.Text

/-- The zeros of the scripts; the other nine digits of a script follow its zero. -/
def zeros : List Nat :=
  [
    0x30, 0x660, 0x6F0, 0x7C0, 0x966, 0x9E6, 0xA66, 0xAE6, 0xB66, 0xBE6, 0xC66, 0xCE6, 0xD66, 0xDE6, 0xE50,
    0xED0, 0xF20, 0x1040, 0x1090, 0x17E0, 0x1810, 0x1946, 0x19D0, 0x1A80, 0x1A90, 0x1B50, 0x1BB0, 0x1C40,
    0x1C50, 0xA620, 0xA8D0, 0xA900, 0xA9D0, 0xA9F0, 0xAA50, 0xABF0, 0xFF10, 0x104A0, 0x10D30, 0x11066, 0x110F0,
    0x11136, 0x111D0, 0x112F0, 0x11450, 0x114D0, 0x11650, 0x116C0, 0x11730, 0x118E0, 0x11950, 0x11C50, 0x11D50,
    0x11DA0, 0x16A60, 0x16AC0, 0x16B50, 0x1D7CE, 0x1D7D8, 0x1D7E2, 0x1D7EC, 0x1D7F6, 0x1E140, 0x1E2F0, 0x1E950,
    0x1FBF0]

/-- The value of a decimal digit. -/
def digitValue? (c : Char) : Option Nat :=
  (zeros.find? fun first => first ≤ c.toNat && c.toNat ≤ first + 9).map (c.toNat - ·)

/-- White space around an integer: that of ASCII without the separators, and all beyond ASCII. -/
def isMargin (c : Char) : Bool :=
  isBlank c && !(0x1C ≤ c.toNat && c.toNat ≤ 0x1F)

/-- The value and the number of digits with single underscores between them, after `count` digits of the value
`sofar`; `afterDigit` tells that a digit stands just before. -/
def digitsFrom (sofar count : Nat) (afterDigit : Bool) : List Char → Option (Nat × Nat)
  | [] => if afterDigit then some (sofar, count) else none
  | c :: rest =>
    if c = '_' then (if afterDigit then digitsFrom sofar count false rest else none)
    else
      match digitValue? c with
      | some d => digitsFrom (10 * sofar + d) (count + 1) true rest
      | none => none

/-- The integer that a text writes, of at most `4300` digits. -/
def integer? (text : String) : Option Int :=
  let inner := ((text.toList.dropWhile isMargin).reverse.dropWhile isMargin).reverse
  let (negative, digits) :=
    match inner with
    | '-' :: rest => (true, rest)
    | '+' :: rest => (false, rest)
    | rest => (false, rest)
  match digitsFrom 0 0 false digits with
  | some (n, count) => if 4300 < count then none else some (if negative then -n else n)
  | none => none

/-- Whether a text looks like a negative number: a minus sign, then digits, or digits with a point before the last
of them.  A line feed may follow. -/
def isNegativeNumber (text : String) : Bool :=
  match text.toList with
  | '-' :: rest =>
    let isDigit (c : Char) := (digitValue? c).isSome
    let whole := rest.takeWhile isDigit
    let isEnd (s : List Char) := s = [] || s = ['\n']
    match rest.drop whole.length with
    | '.' :: more => more.head?.any isDigit && isEnd (more.dropWhile isDigit)
    | more => !whole.isEmpty && isEnd more
  | _ => false

end Semblance.Text
