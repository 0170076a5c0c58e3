import Semblance.Failure

/-!
# Limits on sizes

Submissions are accepted up to a size in bytes.  A limit may be given as any value; one that is no number is refused
only when a size is held against it.
-/

namespace Semblance

/-- The size that is accepted when none is given: one mebibyte. -/
def defaultLimit : Number := .whole (1024 * 1024)

/-- A limit on sizes in bytes, or why the given value is none. -/
abbrev SizeLimit := Except RequestError Number

namespace SizeLimit

/-- The limit that a value is. -/
def ofJson (value : Json) : SizeLimit :=
  value.number? .upperBound

/-- The number that a limit is, for an operation that is about to use it. -/
def get (limit : SizeLimit) : Except Failure Number :=
  limit.mapError .request

theorem get_ok (n : Number) : get (.ok n) = .ok n := rfl

end SizeLimit

end Semblance
