/-!
# White space

Which characters count as white space, and the two operations that make texts comparable up to it: `trim` cuts it
from both ends, `collapse` shrinks every run of it to a single space.  `normalize` does both on a string.
-/

namespace Semblance.Text

/-- White space: the ASCII controls that move the print position, the four information separators, and the
characters of the Unicode property of that name. -/
def isBlank (c : Char) : Bool :=
  let n := c.toNat
  (0x9 ≤ n && n ≤ 0xD) || (0x1C ≤ n && n ≤ 0x20) || n == 0x85 || n == 0xA0 || n == 0x1680 ||
    (0x2000 ≤ n && n ≤ 0x200A) || n == 0x2028 || n == 0x2029 || n == 0x202F || n == 0x205F || n == 0x3000

/-- Cuts the white space from both ends. -/
def trim (s : List Char) : List Char :=
  ((s.dropWhile isBlank).reverse.dropWhile isBlank).reverse

/-- Shrinks each run of white space to one space. -/
def collapse (s : List Char) : List Char :=
  s.foldr (fun c done =>
    if isBlank c then (if done.head? = some ' ' then done else ' ' :: done) else c :: done) []

/-- The text with every run of white space made one space and none left at its ends. -/
def normalize (text : String) : String :=
  String.ofList (trim (collapse text.toList))

/-- The text without the white space at its ends. -/
def trimmed (text : String) : String :=
  String.ofList (trim text.toList)

@[simp] theorem collapse_nil : collapse [] = [] := rfl

theorem collapse_cons_of_not_isBlank {c : Char} (s : List Char) (h : isBlank c = false) :
    collapse (c :: s) = c :: collapse s := by
  simp [collapse, h]

end Semblance.Text
