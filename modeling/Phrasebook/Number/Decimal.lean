/-
# Phrasebook.Number.Decimal -- numbers from their decimal text

A decimal text is a sign, digits with an optional point, and an optional exponent; at least one digit
stands beside the point.  The words for infinity and for what is no number are read as well, in any
case of letters.  Gaps around the number do not count, and the digits may be those of any script.
-/
import Phrasebook.Number.Binary64
import Phrasebook.Number.Integer

namespace Phrasebook

namespace Text

/-- A text with its ASCII letters in lower case. -/
def toLower (t : Text) : Text :=
  t.map fun
    | .scalar c => .scalar c.toLower
    | .surrogate u => .surrogate u

/-- The integer that a sign and decimal digits denote. -/
def toInt? (t : Text) : Option Int :=
  let (negative, digits) := splitSign t
  (toNat? digits).map fun n => if negative then -(n : Int) else n

end Text

namespace Binary64

/-- The number that digits around a point denote, scaled by a power of ten. -/
def ofDigits? (negative : Bool) (whole fraction : Text) (scale : Int) : Option Binary64 :=
  (Text.toNat? (whole ++ fraction)).map fun n => ofDecimal negative n (scale - fraction.length)

/-- The exponent after a mantissa: none at all, or a marked integer. -/
def exponent? : Text → Option Int
  | [] => some 0
  | c :: cs => if c = .scalar 'e' then Text.toInt? cs else none

/-- The number that an unsigned text denotes. -/
def ofUnsigned? (negative : Bool) (t : Text) : Option Binary64 :=
  if t = "inf" || t = "infinity" then some (infinity negative)
  else if t = "nan" then some nan
  else
    let whole := t.takeWhile CodePoint.isDigit
    match t.dropWhile CodePoint.isDigit with
    | .scalar '.' :: rest =>
      let fraction := rest.takeWhile CodePoint.isDigit
      (exponent? (rest.dropWhile CodePoint.isDigit)).bind (ofDigits? negative whole fraction)
    | rest => (exponent? rest).bind (ofDigits? negative whole [])

/-- The number that a decimal text denotes. -/
def ofText? (t : Text) : Option Binary64 :=
  let (negative, rest) := Text.splitSign (Text.toLower (Text.numerals t))
  ofUnsigned? negative rest

end Binary64

end Phrasebook
