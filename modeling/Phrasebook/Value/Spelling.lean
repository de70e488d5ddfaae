/-
# Phrasebook.Value.Spelling -- values in messages

A message names a key by its `display`: a text as it is, anything else by its literal.  Inside a
collection everything appears as a literal, where texts are quoted.  A value that holds an integer
with too many digits cannot be written at all.
-/
import Phrasebook.Number.Integer
import Phrasebook.Text.Quoted
import Phrasebook.Value

namespace Phrasebook.Value

/-- Bytes as a literal. -/
def bytesLiteral (bytes : List UInt8) : Text :=
  let isAscii (c : Char) (b : UInt8) : Bool := b.toNat == c.toNat
  let mark : Char := if bytes.any (isAscii '\'') && !bytes.any (isAscii '"') then '"' else '\''
  let point (b : UInt8) : Text :=
    if isAscii mark b || isAscii '\\' b then [.scalar '\\', .scalar (Char.ofNat b.toNat)]
    else if isAscii '\t' b then "\\t"
    else if isAscii '\n' b then "\\n"
    else if isAscii '\r' b then "\\r"
    else if 0x20 ≤ b.toNat && b.toNat < 0x7F then [.scalar (Char.ofNat b.toNat)]
    else "\\x" ++ Text.hex 2 b.toNat
  [.scalar 'b', .scalar mark] ++ bytes.flatMap point ++ [.scalar mark]

/-- A name with its arguments. -/
def call (name : Text) (arguments : List Text) : Text :=
  name ++ "(" ++ Text.join ", " arguments ++ ")"

/-- A zone as a literal: how far it is ahead, in days and seconds of which the seconds are never
negative, and its name. -/
def zoneLiteral (z : Zone) : Text :=
  let seconds := 60 * z.minutes
  let ahead : List Text :=
    if seconds = 0 then ["0"]
    else if 0 < seconds then ["seconds=" ++ Text.ofInt seconds]
    else ["days=-1", "seconds=" ++ Text.ofInt (86400 + seconds)]
  call "datetime.timezone" [call "datetime.timedelta" ahead, Text.quoted z.name]

/-- A day as a literal. -/
def dateLiteral (d : Date) : Text := call "datetime.date" ([d.year, d.month, d.day].map Text.ofNat)

/-- A moment as a literal; seconds are left out if nothing of them is set. -/
def momentLiteral (m : Moment) : Text :=
  let d := m.date
  let seconds :=
    if m.microsecond ≠ 0 then [m.second, m.microsecond]
    else if m.second ≠ 0 then [m.second]
    else []
  let zone : List Text := m.zone.toList.map fun z => "tzinfo=" ++ zoneLiteral z
  call "datetime.datetime"
    (([d.year, d.month, d.day, m.hour, m.minute] ++ seconds).map Text.ofNat ++ zone)

mutual

/-- A value as a literal. -/
def literal : Value → Text
  | null => "None"
  | bool b => if b then "True" else "False"
  | int n => Text.ofInt n
  | real x => x.text
  | text t => Text.quoted t
  | list items => "[" ++ Text.join ", " (literals items) ++ "]"
  | tuple [] => "()"
  | tuple [item] => "(" ++ literal item ++ ",)"
  | tuple items => "(" ++ Text.join ", " (literals items) ++ ")"
  | map entries => "\x7b" ++ Text.join ", " (entryLiterals entries) ++ "\x7d"
  | date d => dateLiteral d
  | moment m => momentLiteral m
  | bytes b => bytesLiteral b
  | record name fields => name ++ "(" ++ Text.join ", " (fieldLiterals fields) ++ ")"

/-- Values as literals. -/
def literals : List Value → List Text
  | [] => []
  | item :: items => literal item :: literals items

/-- The entries of a mapping as literals. -/
def entryLiterals : List (Value × Value) → List Text
  | [] => []
  | (key, value) :: entries => (literal key ++ ": " ++ literal value) :: entryLiterals entries

/-- The fields of a record as literals. -/
def fieldLiterals : List (Text × Value) → List Text
  | [] => []
  | (name, value) :: fields => (name ++ "=" ++ literal value) :: fieldLiterals fields

end

mutual

/-- Whether a value can be written, which takes that all of its integers can. -/
def isWritable : Value → Bool
  | int n => Phrasebook.isWritable n
  | list items => allWritable items
  | tuple items => allWritable items
  | map entries => entriesWritable entries
  | record _ fields => fieldsWritable fields
  | _ => true

/-- Whether values can be written. -/
def allWritable : List Value → Bool
  | [] => true
  | item :: items => isWritable item && allWritable items

/-- Whether the entries of a mapping can be written. -/
def entriesWritable : List (Value × Value) → Bool
  | [] => true
  | (key, value) :: entries => isWritable key && isWritable value && entriesWritable entries

/-- Whether the fields of a record can be written. -/
def fieldsWritable : List (Text × Value) → Bool
  | [] => true
  | (_, value) :: fields => isWritable value && fieldsWritable fields

end

/-- A value as it is named in a message. -/
def display : Value → Text
  | text t => t
  | date d => d.text
  | moment m => m.text
  | v => v.literal

end Phrasebook.Value
