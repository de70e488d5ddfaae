/-
# Phrasebook.Yaml.Timestamp -- days and moments as they are written

A day is a year, a month and a day.  A moment has a time after that, which may end in a fraction of a
second and in a zone.  Whether what is written exists is a second question: the fraction is rounded to
microseconds, and a second that is filled up by that is the next one.
-/
import Phrasebook.Number.Decimal
import Phrasebook.Value
import Phrasebook.Yaml.Fault

namespace Phrasebook.Yaml

/-- A day or a moment as it is written; a moment may have to be rounded up to the next second. -/
inductive Timestamp where
  | day (d : Date)
  | moment (m : Moment) (roundsUp : Bool)
deriving DecidableEq, Repr

/-! ## Reading -/

/-- A number of as many digits as can be had within bounds, and what follows it. -/
def digitsBetween (least most : Nat) (t : Text) : Option (Nat × Text) :=
  let digits := (t.takeWhile CodePoint.isDigit).take most
  if digits.length < least then none
  else (Text.toNat? digits).map fun n => (n, t.drop digits.length)

/-- What follows a character at the beginning of a text. -/
def after? (c : Char) : Text → Option Text
  | d :: cs => if d = .scalar c then some cs else none
  | [] => none

/-- A blank between the parts of a moment. -/
def isSeparatorBlank (c : CodePoint) : Bool := c = .scalar ' ' || c = .scalar '\t'

/-- The zone at the end of a moment, after blanks, or none at all. -/
def zone? (t : Text) : Option (Option Zone) :=
  let name := t.dropWhile isSeparatorBlank
  let ahead (sign : Int) (rest : Text) : Option (Option Zone) := do
    let (hours, rest) ← digitsBetween 1 2 rest
    let minutes ← match rest with
      | [] => some 0
      | rest => do
        let (minutes, rest) ← digitsBetween 2 2 (← after? ':' rest)
        if rest.isEmpty then some minutes else none
    return some ⟨sign * (60 * hours + minutes : Nat), name⟩
  match name with
  | [] => if t.isEmpty then some none else none
  | [.scalar 'Z'] => some (some ⟨0, name⟩)
  | .scalar '+' :: rest => ahead 1 rest
  | .scalar '-' :: rest => ahead (-1) rest
  | _ => none

/-- The millionths of a second that the digits of a fraction denote, rounded. -/
def microseconds (digits : Text) : Nat :=
  let padded : Text := (digits ++ List.replicate 6 (CodePoint.scalar '0')).take 6
  let round := if (digits[6]?.bind CodePoint.hexValue?).any (4 < ·) then 1 else 0
  (Text.toNat? padded).getD 0 + round

/-- The moment that a time of day makes of a day. -/
def timeOfDay (date : Date) (t : Text) : Option Timestamp := do
  let (hour, t) ← digitsBetween 1 2 t
  let (minute, t) ← digitsBetween 2 2 (← after? ':' t)
  let (second, t) ← digitsBetween 2 2 (← after? ':' t)
  let (fraction, t) := match t with
    | .scalar '.' :: rest => (rest.takeWhile CodePoint.isDigit, rest.dropWhile CodePoint.isDigit)
    | t => ([], t)
  let micros := microseconds fraction
  return .moment ⟨date, hour, minute, second, micros % 1000000, ← zone? t⟩ (1000000 ≤ micros)

/-- The day a text is written as, and what follows it. -/
def readDate (t : Text) : Option (Date × Text) := do
  let (year, t) ← digitsBetween 4 4 t
  let (month, t) ← digitsBetween 1 2 (← after? '-' t)
  let (day, t) ← digitsBetween 1 2 (← after? '-' t)
  return (⟨year, month, day⟩, t)

/-- What follows the letter or the blanks between a day and a time. -/
def afterGap? (t : Text) : Option Text :=
  match t with
  | .scalar 'T' :: rest | .scalar 't' :: rest => some rest
  | t =>
    let rest := t.dropWhile isSeparatorBlank
    if rest.length < t.length then some rest else none

/-- A text without a line feed at its end. -/
def withoutLineFeed (t : Text) : Text :=
  if t.getLast? = some (.scalar '\n') then t.dropLast else t

/-- The day or the moment that a text is written as; a line feed may follow it. -/
def Timestamp.ofText? (t : Text) : Option Timestamp :=
  match readDate (withoutLineFeed t) with
  | none => none
  | some (date, []) => some (.day date)
  | some (date, rest) => (afterGap? rest).bind (timeOfDay date)

/-! ## What exists -/

/-- The value of a day or a moment, if it exists. -/
def Timestamp.value : Timestamp → Except Fault Value
  | .day d => if d.isValid then .ok (.date d) else .error .badScalar
  | .moment m roundsUp =>
    if !m.isValid then .error .badScalar
    else
      let m := if roundsUp then m.next else m
      if m.isValid then .ok (.moment m) else .error .outOfRange

end Phrasebook.Yaml
