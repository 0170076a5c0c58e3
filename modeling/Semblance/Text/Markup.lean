/-!
# Text in markup

Text is put into markup with its angle brackets, ampersands and quotes written as entities, so it can neither open
nor close an element or an attribute.
-/

namespace Semblance.Text

/-- A character in markup. -/
def entity (c : Char) : List Char :=
  if c = '&' then "&amp;".toList
  else if c = '<' then "&lt;".toList
  else if c = '>' then "&gt;".toList
  else if c = '"' then "&quot;".toList
  else if c = '\'' then "&#x27;".toList
  else [c]

/-- A text in markup. -/
def markup (text : String) : String :=
  String.ofList (text.toList.flatMap entity)

end Semblance.Text
