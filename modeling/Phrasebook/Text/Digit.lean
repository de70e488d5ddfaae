/-
# Phrasebook.Text.Digit -- decimal digits of every script

Where a number is read from text, a digit may be one of any script.  In every script the ten digits
follow each other, so that a table of the zeros says which characters are digits and what they are
worth.
-/
import Phrasebook.Text.Lines

namespace Phrasebook

namespace CodePoint

/-- The zeros of all scripts that have digits of their own, in ascending order. -/
def zeros : List Nat := [
  0x0030, 0x0660, 0x06F0, 0x07C0, 0x0966, 0x09E6, 0x0A66, 0x0AE6, 0x0B66, 0x0BE6, 0x0C66, 0x0CE6,
  0x0D66, 0x0DE6, 0x0E50, 0x0ED0, 0x0F20, 0x1040, 0x1090, 0x17E0, 0x1810, 0x1946, 0x19D0, 0x1A80,
  0x1A90, 0x1B50, 0x1BB0, 0x1C40, 0x1C50, 0xA620, 0xA8D0, 0xA900, 0xA9D0, 0xA9F0, 0xAA50, 0xABF0,
  0xFF10, 0x104A0, 0x10D30, 0x11066, 0x110F0, 0x11136, 0x111D0, 0x112F0, 0x11450, 0x114D0, 0x11650,
  0x116C0, 0x11730, 0x118E0, 0x11950, 0x11C50, 0x11D50, 0x11DA0, 0x16A60, 0x16AC0, 0x16B50,
  0x1D7CE, 0x1D7D8, 0x1D7E2, 0x1D7EC, 0x1D7F6, 0x1E140, 0x1E2F0, 0x1E950, 0x1FBF0]

/-- What a digit of any script is worth. -/
def digitValue? (c : CodePoint) : Option Nat :=
  (zeros.find? fun z => z ≤ c.val && c.val < z + 10).map fun z => c.val - z

/-- Whether a code point is a digit of any script. -/
def isNumeral (c : CodePoint) : Bool := c.digitValue?.isSome

/-- A space, a tab or another of the controls that move the print position. -/
def isGap (c : CodePoint) : Bool := c.val = 0x20 || (0x09 ≤ c.val && c.val ≤ 0x0D)

/-- The ASCII digit that is worth the same as a digit of another script; a blank of another script
becomes a space, and anything else stays. -/
def toNumeral (c : CodePoint) : CodePoint :=
  if c.val < 0x80 then c
  else if c.isBlank then .scalar ' '
  else match c.digitValue? with
    | some d => .scalar (Char.ofNat (48 + d))
    | none => c

end CodePoint

namespace Text

/-- A text as a number is read from it: with ASCII digits, and without the gaps around it. -/
def numerals (t : Text) : Text :=
  let rest := (t.map CodePoint.toNumeral).dropWhile CodePoint.isGap
  (rest.reverse.dropWhile CodePoint.isGap).reverse

end Text

end Phrasebook
