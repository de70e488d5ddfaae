/-
# Phrasebook.Yaml.Scalar -- the values of scalars

A scalar is read as its tag says, which fails if it is written differently.  Underscores do not count
in numbers.
-/
import Phrasebook.Yaml.Tag

namespace Phrasebook.Yaml

/-- A text without underscores. -/
def withoutLines (t : Text) : Text := t.filter fun c => c ≠ .scalar '_'

/-- The integer that a text denotes, underscores removed: a sign, the mark of a base in lower case,
and what is an integer to that base, which may have a sign and a mark of its own. -/
def integer? (t : Text) : Option Int :=
  let (negative, body) := Text.splitSign t
  let magnitude := match body with
    | .scalar '0' :: .scalar 'b' :: digits => Text.integer? 2 digits
    | .scalar '0' :: .scalar 'o' :: digits => Text.integer? 8 digits
    | .scalar '0' :: .scalar 'x' :: digits => Text.integer? 16 digits
    | digits => Text.integer? 10 digits
  magnitude.map fun n => if negative then -n else n

/-- The opposite of a number. -/
def opposite : Binary64 → Binary64
  | .nan => .nan
  | .infinity negative => .infinity (!negative)
  | .finite negative mantissa exponent => .finite (!negative) mantissa exponent

/-- The real number that a text denotes, underscores removed. -/
def real? (t : Text) : Option Binary64 :=
  let (negative, body) := Text.splitSign (Text.toLower t)
  let magnitude :=
    if body = ".inf" then some (.infinity false)
    else if body = ".nan" then some .nan
    else Binary64.ofText? body
  magnitude.map fun x => if negative then opposite x else x

/-- Whether a text is the plain spelling of what is no number. -/
def isPlainNan (t : Text) : Bool := (Text.splitSign (Text.toLower (withoutLines t))).2 = ".nan"

/-- The truth value of a word. -/
def truth? (t : Text) : Option Bool :=
  let word := Text.toLower t
  if ["yes", "y", "true", "on"].any fun w => Text.ofString w = word then some true
  else if ["no", "n", "false", "off"].any fun w => Text.ofString w = word then some false
  else none

/-- The value of a digit to the base 64. -/
def base64Digit? : CodePoint → Option Nat
  | .scalar c =>
    if c.isUpper then some (c.toNat - 65)
    else if c.isLower then some (c.toNat - 71)
    else if c.isDigit then some (c.toNat + 4)
    else if c = '+' then some 62
    else if c = '/' then some 63
    else none
  | .surrogate _ => none

/-- The bytes of digits to the base 64, of which two at least are left for the last byte. -/
def base64Bytes : List Nat → Option (List UInt8)
  | [] => some []
  | [_] => none
  | [a, b] => some [UInt8.ofNat (4 * a + b / 16)]
  | [a, b, c] => some [UInt8.ofNat (4 * a + b / 16), UInt8.ofNat (16 * b + c / 4)]
  | a :: b :: c :: d :: rest => do
    let bytes ← base64Bytes rest
    return UInt8.ofNat (4 * a + b / 16) :: UInt8.ofNat (16 * b + c / 4) ::
      UInt8.ofNat (64 * c + d) :: bytes

/-- The bytes that a text encodes; the last digits have to be filled up. -/
def bytes? (t : Text) : Option (List UInt8) :=
  let (digits, padding) := t.span fun c => c ≠ .scalar '='
  let values := digits.filterMap base64Digit?
  if t.any fun c => 0x7F < c.val then none
  else if values.length % 4 ≠ 0 && values.length % 4 + padding.count (.scalar '=') < 4 then none
  else base64Bytes values

/-- The value of a scalar with a tag. -/
def scalarValue (tag : Tag) (t : Text) : Except Fault Value :=
  match tag with
  | .null => .ok .null
  | .text => .ok (.text t)
  | .bool =>
    match truth? t with
    | some b => .ok (.bool b)
    | none => .error .badTruth
  | .int =>
    let digits := withoutLines t
    if digits.isEmpty then .error .emptyNumber
    else match integer? digits with
      | some n => .ok (.int n)
      | none => .error .badScalar
  | .real =>
    let digits := withoutLines t
    if digits.isEmpty then .error .emptyNumber
    else match real? digits with
      | some x => .ok (.real x)
      | none => .error .badScalar
  | .moment =>
    match Timestamp.ofText? t with
    | some moment => moment.value
    | none => .error (.malformed "failed to construct timestamp")
  | .bytes =>
    match bytes? t with
    | some bytes => .ok (.bytes bytes)
    | none => .error (.malformed "failed to decode base64 data")
  | _ => .error (.malformed "could not determine a constructor for the tag")

end Phrasebook.Yaml
