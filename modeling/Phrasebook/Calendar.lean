/-
# Phrasebook.Calendar -- days and moments

An input file may hold a day or a moment where a text is expected; it then has to be named in a
message.  Days are those of the Gregorian calendar in the years 1 to 9999.  A moment is the time that
a clock shows; with a zone it is a point in time as well, and moments with zones are the same if
these points are.
-/
import Phrasebook.Text

namespace Phrasebook

/-- A day of the calendar. -/
structure Date where
  year : Nat
  month : Nat
  day : Nat
deriving DecidableEq, Repr

/-- A zone: how many minutes its clocks are ahead, and the name it is given. -/
structure Zone where
  minutes : Int
  name : Text
deriving DecidableEq, Repr

/-- A moment on a day, to the microsecond. -/
structure Moment where
  date : Date
  hour : Nat
  minute : Nat
  second : Nat
  microsecond : Nat
  zone : Option Zone := none
deriving DecidableEq, Repr

/-! ## What exists -/

/-- Whether a year has a leap day. -/
def isLeapYear (year : Nat) : Bool := year % 4 = 0 && (year % 100 ≠ 0 || year % 400 = 0)

/-- The number of days of a month. -/
def daysInMonth (year month : Nat) : Nat :=
  if month = 2 then (if isLeapYear year then 29 else 28)
  else if month = 4 || month = 6 || month = 9 || month = 11 then 30
  else 31

/-- Whether a day exists. -/
def Date.isValid (d : Date) : Bool :=
  1 ≤ d.year && d.year ≤ 9999 && 1 ≤ d.month && d.month ≤ 12 && 1 ≤ d.day &&
    d.day ≤ daysInMonth d.year d.month

/-- Whether a zone is less than a day ahead or behind. -/
def Zone.isValid (z : Zone) : Bool := z.minutes.natAbs < 24 * 60

/-- Whether a moment exists; there are no leap seconds. -/
def Moment.isValid (m : Moment) : Bool :=
  m.date.isValid && m.hour < 24 && m.minute < 60 && m.second < 60 && m.microsecond < 1000000 &&
    m.zone.all Zone.isValid

/-! ## Points in time -/

/-- The number of days from the first day of the calendar. -/
def Date.number (d : Date) : Nat :=
  let years := d.year - 1
  let leapDays := years / 4 - years / 100 + years / 400
  let before := (List.range (d.month - 1)).foldl (fun n m => n + daysInMonth d.year (m + 1)) 0
  365 * years + leapDays + before + (d.day - 1)

/-- The microseconds from the beginning of the calendar to what the clock shows. -/
def Moment.clock (m : Moment) : Nat :=
  (((m.date.number * 24 + m.hour) * 60 + m.minute) * 60 + m.second) * 1000000 + m.microsecond

/-- Whether two moments are the same; one with a zone and one without never are. -/
def Moment.same (m n : Moment) : Bool :=
  let point (m : Moment) (z : Zone) : Int := m.clock - z.minutes * 60000000
  match m.zone, n.zone with
  | none, none => m.clock = n.clock
  | some z, some z' => point m z = point n z'
  | _, _ => false

/-- The day after a day. -/
def Date.next (d : Date) : Date :=
  if d.day < daysInMonth d.year d.month then { d with day := d.day + 1 }
  else if d.month < 12 then ⟨d.year, d.month + 1, 1⟩
  else ⟨d.year + 1, 1, 1⟩

/-- The moment a second later. -/
def Moment.next (m : Moment) : Moment :=
  if m.second < 59 then { m with second := m.second + 1 }
  else if m.minute < 59 then { m with minute := m.minute + 1, second := 0 }
  else if m.hour < 23 then { m with hour := m.hour + 1, minute := 0, second := 0 }
  else { m with date := m.date.next, hour := 0, minute := 0, second := 0 }

/-! ## In words -/

/-- A number filled up with zeros to a width. -/
def padded (width n : Nat) : Text :=
  let digits := Text.ofNat n
  List.replicate (width - digits.length) (.scalar '0' : CodePoint) ++ digits

/-- A day as year, month and day. -/
def Date.text (d : Date) : Text := padded 4 d.year ++ "-" ++ padded 2 d.month ++ "-" ++ padded 2 d.day

/-- A zone as a sign, hours and minutes. -/
def Zone.text (z : Zone) : Text :=
  let sign : Text := if z.minutes < 0 then "-" else "+"
  sign ++ padded 2 (z.minutes.natAbs / 60) ++ ":" ++ padded 2 (z.minutes.natAbs % 60)

/-- A moment as its day, its time and its zone; a fraction is shown if there is one. -/
def Moment.text (m : Moment) : Text :=
  let time : Text := padded 2 m.hour ++ ":" ++ padded 2 m.minute ++ ":" ++ padded 2 m.second
  let fraction : Text := if m.microsecond = 0 then [] else "." ++ padded 6 m.microsecond
  m.date.text ++ " " ++ time ++ fraction ++ (m.zone.map Zone.text).getD []

end Phrasebook
