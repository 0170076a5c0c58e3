/-!
# Classes of characters by turns

A class of characters is given by its turns: the increasing code points at which characters of the class and other
characters take turns, the first character of the class first.
-/

namespace Semblance.Text

/-- Whether a character belongs to the class with the given turns: an odd number of turns is not above it. -/
def isWithin (turns : Array Nat) (c : Char) : Bool :=
  turns.foldl (fun inside turn => if turn ≤ c.toNat then !inside else inside) false

@[simp] theorem isWithin_empty (c : Char) : isWithin #[] c = false := rfl

/-- A further turn changes the class from its code point on. -/
theorem isWithin_push (turns : Array Nat) (turn : Nat) (c : Char) :
    isWithin (turns.push turn) c = if turn ≤ c.toNat then !isWithin turns c else isWithin turns c := by
  simp only [isWithin, Array.foldl_push]

end Semblance.Text
