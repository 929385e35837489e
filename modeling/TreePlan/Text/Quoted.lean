import TreePlan.Text.Numeral
import TreePlan.Text.Printable

/-!
Texts quoted for a reader. Single quotes stand around a text, double quotes where that saves an
escape; what does not print is shown by its number.
-/

namespace TreePlan

namespace CodePoint

/-- A code point by its number, in the shortest of three widths. -/
def numbered (c : CodePoint) : Text :=
  if c.val < 0x100 then "\\x" ++ Text.hex 2 c.val
  else if c.val < 0x10000 then "\\u" ++ Text.hex 4 c.val
  else "\\U" ++ Text.hex 8 c.val

def quotedWithin (quote c : CodePoint) : Text :=
  if c = quote ∨ c = '\\' then ['\\', c]
  else if c = '\n' then "\\n"
  else if c = '\r' then "\\r"
  else if c = '\t' then "\\t"
  else if c.isPrintable then [c]
  else c.numbered

end CodePoint

def Text.quoted (t : Text) : Text :=
  let quote : CodePoint := if t.contains '\x27' && !t.contains '"' then '"' else '\x27'
  quote :: t.flatMap (CodePoint.quotedWithin quote) ++ [quote]

end TreePlan
