/-
# Phrasebook.Text.Quoted -- texts between quotation marks

Messages show a text between apostrophes, or between quotation marks if the text holds an apostrophe
and no quotation mark.  The mark in use and the backslash are escaped; so is everything that is not
printable, with as few hexadecimal digits out of two, four and eight as its number needs.
-/
import Phrasebook.Text.Printable

namespace Phrasebook

namespace Text

/-- The mark a text is quoted with. -/
def quoteMark (t : Text) : CodePoint :=
  if t.contains '\'' && !t.contains '"' then '"' else '\''

/-- A code point inside a text quoted with a mark. -/
def quotedPoint (mark c : CodePoint) : Text :=
  if c = mark || c = '\\' then [.scalar '\\', c]
  else if c = '\t' then "\\t"
  else if c = '\n' then "\\n"
  else if c = '\r' then "\\r"
  else if c.isPrintable then [c]
  else if c.val < 0x100 then "\\x" ++ hex 2 c.val
  else if c.val < 0x10000 then "\\u" ++ hex 4 c.val
  else "\\U" ++ hex 8 c.val

/-- The text between quotation marks. -/
def quoted (t : Text) : Text :=
  let mark := quoteMark t
  [mark] ++ t.flatMap (quotedPoint mark) ++ [mark]

end Text

end Phrasebook
