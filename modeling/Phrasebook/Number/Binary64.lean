/-
# Phrasebook.Number.Binary64 -- double-precision numbers, exactly

A `Binary64` is a mantissa times a power of two, an infinity, or not a number.  Reading a decimal
gives the nearest such number, a tie going to the even mantissa; writing one gives the fewest digits
that are read back as it, and of those the nearest.  Both work on natural numbers without rounding.
-/
import Phrasebook.Text

namespace Phrasebook

/-- A double-precision number.  A finite one is `± mantissa * 2 ^ exponent`; its mantissa has 53 bits
unless the exponent is the least one. -/
inductive Binary64 where
  | nan
  | infinity (negative : Bool)
  | finite (negative : Bool) (mantissa : Nat) (exponent : Int)
deriving DecidableEq, Inhabited, Repr

namespace Binary64

/-- The least exponent. -/
def leastExponent : Int := -1074

/-- The greatest exponent. -/
def greatestExponent : Int := 971

/-- The number from which on a mantissa has more than 53 bits. -/
def mantissaLimit : Nat := 9007199254740992

/-! ## Reading -/

/-- The natural number nearest to a quotient, a tie going to the even one. -/
def roundQuotient (num den : Nat) : Nat :=
  let q := num / den
  let twice := 2 * (num % den)
  if twice < den then q else if den < twice then q + 1 else q + q % 2

/-- A quotient scaled by a power of two, as numerator and denominator. -/
def scaleDown (num den : Nat) (exponent : Int) : Nat × Nat :=
  match exponent with
  | .ofNat e => (num, den * Nat.pow 2 e)
  | .negSucc e => (num * Nat.pow 2 (e + 1), den)

/-- The exponent at which a positive quotient has a mantissa of 53 bits, or the least exponent. -/
def exponentOf (num den : Nat) : Int :=
  let guess : Int := (num.log2 : Int) - (den.log2 : Int) - 53
  let fits (e : Int) : Bool :=
    let (n, d) := scaleDown num den e
    n / d < mantissaLimit
  let e := if fits guess then guess else guess + 1
  max e leastExponent

/-- The number nearest to a positive quotient. -/
def ofQuotient (negative : Bool) (num den : Nat) : Binary64 :=
  let e := exponentOf num den
  let (n, d) := scaleDown num den e
  let m := roundQuotient n d
  let (m, e) := if m = mantissaLimit then (mantissaLimit / 2, e + 1) else (m, e)
  if greatestExponent < e then infinity negative else finite negative m e

/-- The number nearest to `± digits * 10 ^ scale`. -/
def ofDecimal (negative : Bool) (digits : Nat) (scale : Int) : Binary64 :=
  if digits = 0 then finite negative 0 leastExponent
  else
    let magnitude : Int := (Nat.toDigits 10 digits).length + scale
    if 400 < magnitude then infinity negative
    else if magnitude < -400 then finite negative 0 leastExponent
    else match scale with
      | .ofNat s => ofQuotient negative (digits * Nat.pow 10 s) 1
      | .negSucc s => ofQuotient negative digits (Nat.pow 10 (s + 1))

/-! ## Writing -/

/-- The value of a finite number without its sign, as numerator and denominator. -/
def magnitude (mantissa : Nat) (exponent : Int) : Nat × Nat :=
  match exponent with
  | .ofNat e => (mantissa * Nat.pow 2 e, 1)
  | .negSucc e => (mantissa, Nat.pow 2 (e + 1))

/-- The number of zeros between the point and the first digit of a quotient below one. -/
def leadingZeros (num den : Nat) : Nat → Nat
  | 0 => 0
  | limit + 1 => if num * 10 < den then leadingZeros (num * 10) den limit + 1 else 0

/-- The position of the decimal point before the first digit: a quotient lies between
`10 ^ (position - 1)` and `10 ^ position`. -/
def pointPosition (num den : Nat) : Int :=
  if den ≤ num then (Nat.toDigits 10 (num / den)).length else -(leadingZeros num den 400 : Int)

/-- Of the two neighbours of a quotient on the grid `10 ^ scale` the one that is read back as `x`;
if both are, the nearer one, and the even one of two that are equally near. -/
def onGrid? (x : Binary64) (num den : Nat) (scale : Int) : Option Nat :=
  let (n, d) := match scale with
    | .ofNat s => (num, den * Nat.pow 10 s)
    | .negSucc s => (num * Nat.pow 10 (s + 1), den)
  let below := n / d
  let reads (k : Nat) : Bool := ofDecimal false k scale = x
  match reads below, reads (below + 1) with
  | true, true => some (roundQuotient n d)
  | true, false => some below
  | false, true => some (below + 1)
  | false, false => none

/-- The least number of significant digits, from `17 - more` on, that is read back as `x`, with the
scale of the digits. -/
def shortest (x : Binary64) (num den : Nat) (position : Int) : Nat → Nat × Int
  | 0 => ((onGrid? x num den (position - 17)).getD 0, position - 17)
  | more + 1 =>
    let scale := position - (17 - (more + 1 : Nat))
    match onGrid? x num den scale with
    | some digits => (digits, scale)
    | none => shortest x num den position more

/-- Digits with a decimal point at a position; outside `-4 < position ≤ 16` with an exponent of at
least two digits. -/
def placePoint (digits : List Char) (position : Int) : List Char :=
  if -4 < position ∧ position ≤ 16 then
    match position with
    | .ofNat 0 => '0' :: '.' :: digits
    | .negSucc p => '0' :: '.' :: List.replicate (p + 1) '0' ++ digits
    | .ofNat p =>
      if digits.length ≤ p then digits ++ List.replicate (p - digits.length) '0' ++ ['.', '0']
      else digits.take p ++ '.' :: digits.drop p
  else
    let e := position - 1
    let exponentDigits := Nat.toDigits 10 e.natAbs
    let padded := if exponentDigits.length < 2 then '0' :: exponentDigits else exponentDigits
    let mantissa := match digits with
      | d :: (d' :: ds) => d :: '.' :: d' :: ds
      | ds => ds
    mantissa ++ 'e' :: (if e < 0 then '-' else '+') :: padded

/-- The digits of a finite positive number with its decimal point. -/
def digitsOf (mantissa : Nat) (exponent : Int) : List Char :=
  if mantissa = 0 then ['0', '.', '0']
  else
    let (num, den) := magnitude mantissa exponent
    let position := pointPosition num den
    let (digits, scale) := shortest (finite false mantissa exponent) num den position 16
    let all := Nat.toDigits 10 digits
    let kept := (all.reverse.dropWhile (· = '0')).reverse
    placePoint kept (all.length + scale)

/-- The text of a number. -/
def text : Binary64 → Text
  | nan => "nan"
  | infinity negative => if negative then "-inf" else "inf"
  | finite negative mantissa exponent =>
    let digits : Text := (digitsOf mantissa exponent).map .scalar
    if negative then (.scalar '-' : CodePoint) :: digits else digits

/-! ## Comparing with integers -/

/-- Whether a number is exactly an integer. -/
def eqInt : Binary64 → Int → Bool
  | finite negative mantissa exponent, n =>
    let (num, den) := magnitude mantissa exponent
    n * den = if negative then -(num : Int) else num
  | _, _ => false

/-- Whether a number has no fractional part. -/
def isWhole : Binary64 → Bool
  | finite _ mantissa exponent =>
    let (num, den) := magnitude mantissa exponent
    num % den = 0
  | _ => false

/-- Equality of numbers: the zeros are equal, and nothing equals what is not a number. -/
def same : Binary64 → Binary64 → Bool
  | nan, _ => false
  | _, nan => false
  | finite _ 0 _, finite _ 0 _ => true
  | x, y => x = y

end Binary64

end Phrasebook
