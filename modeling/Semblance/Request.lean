import Semblance.Json
import Semblance.Text.Quoted

/-!
# Requests

A request is made of JSON values.  A value of the wrong type is refused where it is used and not before, so a request
may carry it along; the refusal tells the use and the type.
-/

namespace Semblance

namespace Json

/-- The name of a value's type. -/
def typeName : Json → String
  | null => "NoneType"
  | bool _ => "bool"
  | number (.whole _) => "int"
  | number (.real _) => "float"
  | string _ => "str"
  | array _ => "list"
  | object _ => "dict"

mutual

/-- The text of a value, with strings in quotes. -/
def literal : Json → String
  | null => "None"
  | bool b => if b then "True" else "False"
  | number n => n.text
  | string s => Text.quoted s
  | array items => "[" ++ ", ".intercalate (literals items) ++ "]"
  | object members => "\x7b" ++ ", ".intercalate (literalMembers members) ++ "\x7d"

/-- The texts of some values. -/
def literals : List Json → List String
  | [] => []
  | item :: rest => item.literal :: literals rest

/-- The texts of the members of an object. -/
def literalMembers : List (String × Json) → List String
  | [] => []
  | (key, value) :: rest => (Text.quoted key ++ ": " ++ value.literal) :: literalMembers rest

end

/-- A value as it is shown within a text: a string stands there as it is. -/
def shown : Json → String
  | string s => s
  | value => value.literal

theorem shown_ofInt (n : Int) : (ofInt n).shown = toString n := by
  simp only [ofInt, shown, literal, Number.text]

end Json

/-- What a value is used for. -/
inductive Use where
  | text (name : String)
  | key
  | upperBound
  | lowerBound
  | markup
  | casing
  | part (position : Nat)
  | place
  | path
  | sequence
  | index
  | factor
  deriving DecidableEq, Repr

/-- What is said about a value whose type does not suit a use. -/
def Use.message (type : String) : Use → String
  | text name => s!"{name} must be str, not {type}"
  | key => s!"unhashable type: '{type}'"
  | upperBound => s!"'>' not supported between instances of 'int' and '{type}'"
  | lowerBound => s!"'<' not supported between instances of 'int' and '{type}'"
  | markup => s!"'{type}' object has no attribute 'replace'"
  | casing => s!"'{type}' object has no attribute 'lower'"
  | part position => s!"sequence item {position}: expected str instance, {type} found"
  | place => s!"stat: path should be string, bytes, os.PathLike or integer, not {type}"
  | path => s!"expected str, bytes or os.PathLike object, not {type}"
  | sequence => s!"'{type}' object is not iterable"
  | index => s!"list indices must be integers or slices, not {type}"
  | factor => s!"can't multiply sequence by non-int of type '{type}'"

/-- Why a request is refused: a value names no policy, or does not suit its use. -/
inductive RequestError where
  | unknownPolicy (value : Json)
  | unfit (use : Use) (value : Json)

namespace RequestError

/-- What is said about a refused request. -/
def message : RequestError → String
  | unknownPolicy value => value.literal
  | unfit use value => use.message value.typeName

end RequestError

namespace Json

/-- The string that a value is. -/
def string? (use : Use) : Json → Except RequestError String
  | string s => .ok s
  | value => .error (.unfit use value)

/-- The number that a value is. -/
def number? (use : Use) : Json → Except RequestError Number
  | number n => .ok n
  | bool b => .ok (.whole (if b then 1 else 0))
  | value => .error (.unfit use value)

/-- The integer that a value is. -/
def int? (use : Use) : Json → Except RequestError Int
  | number (.whole n) => .ok n
  | bool b => .ok (if b then 1 else 0)
  | value => .error (.unfit use value)

theorem string?_string (use : Use) (s : String) : (string s).string? use = .ok s := rfl

theorem number?_ofInt (use : Use) (n : Int) : (ofInt n).number? use = .ok (.whole n) := rfl

theorem int?_ofInt (use : Use) (n : Int) : (ofInt n).int? use = .ok n := rfl

end Json

end Semblance
