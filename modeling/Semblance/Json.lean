import Semblance.Number
import Semblance.Text.Hex

/-!
# JSON values

The values of JSON, with the members of an object in their order, and their two written forms: on one line with only
ASCII characters, and over several lines with an indentation of two spaces.
-/

namespace Semblance

/-- A JSON value. -/
inductive Json where
  | null
  | bool (b : Bool)
  | number (n : Number)
  | string (s : String)
  | array (items : List Json)
  | object (members : List (String × Json))
  deriving Inhabited, Repr

namespace Json

/-- An integer. -/
def ofInt (n : Int) : Json :=
  number (.whole n)

/-- A string, or null in its place. -/
def ofString? (s : Option String) : Json :=
  (s.map string).getD null

/-- A list of strings. -/
def ofStrings (strings : List String) : Json :=
  array (strings.map string)

/-- The escape of a code point by its number: above the first plane, a pair of surrogates. -/
def codeEscape (n : Nat) : List Char :=
  if n < 0x10000 then '\\' :: 'u' :: Text.hex 4 n
  else
    let high := 0xD800 + (n - 0x10000) / 0x400
    let low := 0xDC00 + (n - 0x10000) % 0x400
    '\\' :: 'u' :: Text.hex 4 high ++ '\\' :: 'u' :: Text.hex 4 low

/-- A character of a string: quotes, backslashes and controls are escaped, and with `ascii` everything else that is
no printable ASCII character. -/
def escape (ascii : Bool) (c : Char) : List Char :=
  if c = '"' then ['\\', '"']
  else if c = '\\' then ['\\', '\\']
  else if c = '\n' then ['\\', 'n']
  else if c = '\r' then ['\\', 'r']
  else if c = '\t' then ['\\', 't']
  else if c = '\x08' then ['\\', 'b']
  else if c = '\x0c' then ['\\', 'f']
  else if c.toNat < 0x20 || (ascii && 0x7F ≤ c.toNat) then codeEscape c.toNat
  else [c]

/-- A string in double quotes. -/
def quote (ascii : Bool) (s : String) : String :=
  String.ofList ('"' :: s.toList.flatMap (escape ascii) ++ ['"'])

/-- A number. -/
def numberText : Number → String
  | .real .undefined => "NaN"
  | .real (.infinity negative) => if negative then "-Infinity" else "Infinity"
  | n => n.text

/-- How values are laid out. -/
structure Layout where
  ascii : Bool
  /-- What stands before an item at a depth, after the opening bracket or a comma. -/
  item : (isFirst : Bool) → (depth : Nat) → String
  /-- What stands before a closing bracket at a depth. -/
  close : (depth : Nat) → String

/-- All on one line, in ASCII. -/
def Layout.line : Layout where
  ascii := true
  item isFirst _ := if isFirst then "" else ", "
  close _ := ""

/-- A line break and two spaces for each level. -/
def Layout.newLine (depth : Nat) : String :=
  String.ofList ('\n' :: List.replicate (2 * depth) ' ')

/-- Each item on a line of its own. -/
def Layout.indented : Layout where
  ascii := false
  item isFirst depth := (if isFirst then "" else ",") ++ newLine depth
  close depth := newLine depth

mutual

/-- Writes a value that stands at a depth, after the text `out`. -/
def writeOnto (l : Layout) (depth : Nat) (out : String) : Json → String
  | null => out ++ "null"
  | bool b => out ++ (if b then "true" else "false")
  | number n => out ++ numberText n
  | string s => out ++ quote l.ascii s
  | array [] => out ++ "[]"
  | array (x :: xs) =>
    writeItems l (depth + 1) (writeOnto l (depth + 1) (out ++ "[" ++ l.item true (depth + 1)) x) xs ++
      l.close depth ++ "]"
  | object [] => out ++ "\x7b\x7d"
  | object ((key, x) :: xs) =>
    writeMembers l (depth + 1)
      (writeOnto l (depth + 1) (out ++ "\x7b" ++ l.item true (depth + 1) ++ quote l.ascii key ++ ": ") x) xs ++
      l.close depth ++ "\x7d"

/-- Writes the items of a list after its first. -/
def writeItems (l : Layout) (depth : Nat) (out : String) : List Json → String
  | [] => out
  | x :: xs => writeItems l depth (writeOnto l depth (out ++ l.item false depth) x) xs

/-- Writes the members of an object after its first. -/
def writeMembers (l : Layout) (depth : Nat) (out : String) : List (String × Json) → String
  | [] => out
  | (key, x) :: xs =>
    writeMembers l depth (writeOnto l depth (out ++ l.item false depth ++ quote l.ascii key ++ ": ") x) xs

end

/-- The value on one line, in ASCII. -/
def compact (j : Json) : String :=
  writeOnto .line 0 "" j

/-- The value over several lines. -/
def pretty (j : Json) : String :=
  writeOnto .indented 0 "" j

end Json

end Semblance
