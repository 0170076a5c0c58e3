import Semblance.Text.Hex
import Semblance.Text.Printable
import Semblance.Text.Raw

/-!
# Quoted text

Text as it is quoted in messages: in single quotes, or in double quotes when it has a single quote and no double
one.  The quote in use, backslashes, characters that are not printable and stray bytes are escaped.
-/

namespace Semblance

/-- A character of a text in the quote `mark`. -/
def Text.escapeIn (mark c : Char) : List Char :=
  if c = mark || c = '\\' then ['\\', c]
  else if c = '\n' then ['\\', 'n']
  else if c = '\r' then ['\\', 'r']
  else if c = '\t' then ['\\', 't']
  else if isPrintable c then [c]
  else if c.toNat < 0x100 then '\\' :: 'x' :: hex 2 c.toNat
  else if c.toNat < 0x10000 then '\\' :: 'u' :: hex 4 c.toNat
  else '\\' :: 'U' :: hex 8 c.toNat

/-- A character or stray byte of a text in the quote `mark`. -/
def RawChar.escapeIn (mark : Char) : RawChar → List Char
  | char c => Text.escapeIn mark c
  | stray b => '\\' :: 'u' :: Text.hex 4 (stray b).code

/-- A text in quotes. -/
def RawText.quoted (t : RawText) : String :=
  let mark := if t.contains '\'' && !t.contains '"' then '"' else '\''
  String.ofList (mark :: t.flatMap (RawChar.escapeIn mark) ++ [mark])

/-- A text in quotes. -/
def Text.quoted (text : String) : String :=
  RawText.quoted text

end Semblance
