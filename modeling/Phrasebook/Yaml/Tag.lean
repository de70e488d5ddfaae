/-
# Phrasebook.Yaml.Tag -- the tags of nodes

A tag says what sort of value a node has.  A plain scalar without a tag is a truth value, a number,
null, a day or a moment if it is written like one, and else a text.  Underscores may stand among the
digits of numbers.

The words `yes`, `no`, `on` and `off` are texts unless a tag calls them truth values, and leading zeros
do not make a number octal.
-/
import Phrasebook.Yaml.Timestamp

namespace Phrasebook.Yaml

/-- The tags with a meaning. -/
inductive Tag where
  | null
  | bool
  | int
  | real
  | text
  | bytes
  | moment
  | sequence
  | mapping
  | merge
  | value
  | other
deriving DecidableEq, Inhabited, Repr

/-- What the names of common tags begin with. -/
def commonTag : Text := "tag:yaml.org,2002:"

/-- The tags by their names. -/
def tagNames : List (Text × Tag) := [
  ("null", .null), ("bool", .bool), ("int", .int), ("float", .real), ("str", .text),
  ("binary", .bytes), ("timestamp", .moment), ("seq", .sequence), ("map", .mapping),
  ("merge", .merge), ("value", .value)]

/-- The tag with a full name. -/
def Tag.ofText (name : Text) : Tag :=
  ((tagNames.find? fun t => commonTag ++ t.1 = name).map Prod.snd).getD .other

/-! ## Plain scalars -/

/-- A digit or an underscore. -/
def isDigitOrLine (c : CodePoint) : Bool := c.isDigit || c = .scalar '_'

/-- Whether a text is a run of at least one character of a class. -/
def isRun (test : CodePoint → Bool) (t : Text) : Bool := !t.isEmpty && t.all test

/-- A text without the sign at its beginning. -/
def unsigned (t : Text) : Text := (Text.splitSign t).2

/-- Whether a text starts with a digit. -/
def startsWithDigit (t : Text) : Bool := t.head?.any CodePoint.isDigit

/-- An exponent, or nothing if it may be left out. -/
def isExponent (mayBeEmpty signRequired : Bool) : Text → Bool
  | [] => mayBeEmpty
  | e :: cs =>
    let digits := unsigned cs
    (e = .scalar 'e' || e = .scalar 'E') && isRun CodePoint.isDigit digits &&
      (!signRequired || digits.length < cs.length)

/-- Whether a plain scalar is a truth value. -/
def looksBool (t : Text) : Bool :=
  ["true", "True", "TRUE", "false", "False", "FALSE"].any fun word => Text.ofString word = t

/-- Whether a plain scalar is null. -/
def looksNull (t : Text) : Bool :=
  ["", "~", "null", "Null", "NULL"].any fun word => Text.ofString word = t

/-- Whether a plain scalar is a real number: with a point, with an exponent, or a word for one. -/
def looksReal (t : Text) : Bool :=
  let body := unsigned t
  let after := body.dropWhile isDigitOrLine
  let isWord (words : List String) (t : Text) : Bool := words.any fun word => Text.ofString word = t
  isWord [".nan", ".NaN", ".NAN"] t || isWord [".inf", ".Inf", ".INF"] body ||
    match after with
    | .scalar '.' :: rest =>
      let exponent := rest.dropWhile isDigitOrLine
      if startsWithDigit body then isExponent true false exponent
      else body.length = after.length && exponent.length < rest.length &&
        isExponent true true exponent
    | exponent => startsWithDigit body && isExponent false false exponent

/-- A digit of a base, or an underscore. -/
def isBaseDigit (base : Nat) (c : CodePoint) : Bool :=
  c = .scalar '_' || c.hexValue?.any (· < base)

/-- Whether a plain scalar is an integer. -/
def looksInt (t : Text) : Bool :=
  let startsRight : Bool := startsWithDigit t || (unsigned t).length < t.length
  let body := unsigned t
  let marked : Bool := match body with
    | .scalar '0' :: .scalar 'b' :: digits => isRun (isBaseDigit 2) digits
    | .scalar '0' :: .scalar 'o' :: digits => isRun (isBaseDigit 8) digits
    | .scalar '0' :: .scalar 'x' :: digits => isRun (isBaseDigit 16) digits
    | _ => false
  startsRight && (marked || isRun isDigitOrLine body)

/-- Whether a plain scalar is a day, which takes all its digits, or a moment. -/
def looksCalendar (t : Text) : Bool :=
  match Timestamp.ofText? t with
  | some (.day _) => t.length = 10
  | some (.moment _ _) => true
  | none => false

/-- The tag of a scalar that is judged by the way it is written; a line feed at its end does not
count. -/
def plainTag (t : Text) : Tag :=
  let body := withoutLineFeed t
  if body.isEmpty && !t.isEmpty then .text
  else if looksBool body then .bool
  else if looksReal body then .real
  else if looksInt body then .int
  else if body = "<<" then .merge
  else if looksNull body then .null
  else if looksCalendar body then .moment
  else if body = "=" then .value
  else .text

/-! ## Tags of nodes -/

/-- The tag that leaves the meaning to the way a scalar is written. -/
def openTag : Text := "!"

/-- The tag of a scalar, of which one may be written. -/
def scalarTag (written : Option Text) (text : Text) (plain : Bool) : Tag :=
  match written with
  | none => if plain then plainTag text else .text
  | some tag => if tag = openTag then plainTag text else Tag.ofText tag

/-- The tag of a collection, which is the usual one if none is written. -/
def collectionTag (written : Option Text) (usual : Tag) : Tag :=
  match written with
  | none => usual
  | some tag => if tag = openTag then usual else Tag.ofText tag

end Phrasebook.Yaml
