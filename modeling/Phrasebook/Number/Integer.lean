/-
# Phrasebook.Number.Integer -- integers from text to a base

An integer is a sign and digits, with gaps around it.  To a base other than ten a mark may stand
before the digits.  To the base ten neither reading nor writing goes beyond a number of digits, as
both take a time that grows with its square.
-/
import Phrasebook.Text.Digit

namespace Phrasebook

/-- The greatest number of digits of an integer to the base ten. -/
def digitLimit : Nat := 4300

/-- Whether an integer has few enough digits to be written to the base ten. -/
def isWritable (n : Int) : Bool := n.natAbs < Nat.pow 10 digitLimit

namespace Text

/-- A text at its sign: whether it is negative, and what follows. -/
def splitSign : Text → Bool × Text
  | .scalar '-' :: cs => (true, cs)
  | .scalar '+' :: cs => (false, cs)
  | cs => (false, cs)

/-- The natural number that digits of a base denote. -/
def digits? (base : Nat) (t : Text) : Option Nat :=
  if t.isEmpty then none
  else t.foldl (fun acc c => do
    let d ← c.hexValue?
    if d < base then return base * (← acc) + d else none) (some 0)

/-- The letter in the mark of a base. -/
def baseMark? (base : Nat) : Option Char :=
  if base = 2 then some 'b' else if base = 8 then some 'o' else if base = 16 then some 'x' else none

/-- A text without the mark of a base, a zero and a letter of either case. -/
def withoutMark (base : Nat) : Text → Text
  | .scalar '0' :: .scalar c :: cs =>
    if baseMark? base = some c.toLower then cs else .scalar '0' :: .scalar c :: cs
  | cs => cs

/-- The integer that a text denotes to a base. -/
def integer? (base : Nat) (t : Text) : Option Int :=
  let (negative, body) := splitSign (numerals t)
  let digits := withoutMark base body
  if base = 10 && digitLimit < digits.length then none
  else (digits? base digits).map fun n => if negative then -(n : Int) else n

end Text

end Phrasebook
