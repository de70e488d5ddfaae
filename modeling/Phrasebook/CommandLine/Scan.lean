/-
# Phrasebook.CommandLine.Scan -- switches, values and operands apart

One part of a command line is read from left to right by its grammar.  An argument that starts with
a dash is a switch, which may be shortened as long as it stays unambiguous, and may carry its value
after an equals sign or, if its spelling has one letter, directly.  Single letters without a value may
share a dash.  After `--` all arguments are operands; before it, a dash alone, a negative number and
whatever has a space in it are operands too.

A switch takes its value from the next argument only, and the operand is taken where it first can be.
What nobody takes is left over.
-/
import Phrasebook.CommandLine.Grammar
import Phrasebook.Text.Digit

namespace Phrasebook.CommandLine

/-! ## Arguments one by one -/

/-- A switch as it is used: its spelling in full, and a value given with it. -/
structure Use where
  switch : Switch
  spelling : Text
  value : Option Text := none
deriving DecidableEq, Repr

/-- An argument by its form. -/
inductive Piece where
  | operand (raw : Text)
  | separator
  | switch (raw : Text) (use : Option Use)
deriving DecidableEq, Repr

/-- The argument after which there are no switches. -/
def separatorText : Text := "--"

/-- An argument as it is given. -/
def Piece.raw : Piece → Text
  | operand raw => raw
  | separator => separatorText
  | switch raw _ => raw

/-- Whether a text is a dash and a number, which may have a point in it and a line feed after it. -/
def isNegativeNumber : Text → Bool
  | .scalar '-' :: number =>
    let digits := if number.getLast? = some (.scalar '\n') then number.dropLast else number
    match digits.dropWhile CodePoint.isNumeral with
    | [] => !digits.isEmpty
    | .scalar '.' :: fraction => !fraction.isEmpty && fraction.all CodePoint.isNumeral
    | _ => false
  | _ => false

/-- Whether an argument starts like a spelled-out switch. -/
def startsLong (t : Text) : Bool := separatorText.isPrefixOf t

/-- A text at its first equals sign. -/
def splitValue (t : Text) : Text × Option Text :=
  match t.dropWhile (· ≠ .scalar '=') with
  | [] => (t, none)
  | _ :: value => (t.takeWhile (· ≠ .scalar '='), some value)

/-- The uses that a shortened switch, or a letter with its value, may stand for. -/
def Grammar.completions (g : Grammar) (raw : Text) : List Use :=
  if startsLong raw then
    let (start, value) := splitValue raw
    (g.spellings.filter fun s => start.isPrefixOf s.1).map fun s => ⟨s.2, s.1, value⟩
  else
    g.spellings.filterMap fun s =>
      if s.1 = raw.take 2 then some ⟨s.2, s.1, some (raw.drop 2)⟩
      else if raw.isPrefixOf s.1 then some ⟨s.2, s.1, none⟩
      else none

/-- The form of an argument before the separator. -/
def Grammar.classify (g : Grammar) (raw : Text) : Except Problem Piece :=
  if raw.head? ≠ some (.scalar '-') then .ok (.operand raw)
  else match g.spellings.lookup raw with
    | some s => .ok (.switch raw (some ⟨s, raw, none⟩))
    | none =>
      if raw.length = 1 then .ok (.operand raw)
      else
        let (start, value) := splitValue raw
        match value, g.spellings.lookup start with
        | some value, some s => .ok (.switch raw (some ⟨s, start, some value⟩))
        | _, _ =>
          match g.completions raw with
          | [use] => .ok (.switch raw (some use))
          | [] =>
            if isNegativeNumber raw || raw.contains (.scalar ' ') then .ok (.operand raw)
            else .ok (.switch raw none)
          | uses => .error (.ambiguous raw (uses.map Use.spelling))

/-- The forms of all arguments. -/
def Grammar.classifyAll (g : Grammar) : List Text → Except Problem (List Piece)
  | [] => .ok []
  | raw :: rest =>
    if raw = separatorText then .ok (.separator :: rest.map .operand)
    else do
      let piece ← g.classify raw
      let pieces ← g.classifyAll rest
      return piece :: pieces

/-! ## Arguments together -/

/-- What has been read. -/
inductive Found where
  | switch (s : Switch) (value : Option Text)
  | operand (values : List Text)
deriving DecidableEq, Repr

/-- Reads letters that share a dash, `value` being what follows the letter of a switch.  The number
says how many of the pieces that follow are taken. -/
def Grammar.readUse (g : Grammar) (s : Switch) (isLetter : Bool) (next : Option Piece) :
    Option Text → Except Problem (List Found × Nat)
  | none =>
    if s.takesValue then
      match next with
      | some (.operand raw) => .ok ([.switch s (some raw)], 1)
      | _ => .error (.valueMissing s)
    else .ok ([.switch s none], 0)
  | some value =>
    if s.takesValue then .ok ([.switch s (some value)], 0)
    else if !isLetter then .error (.valueIgnored s value)
    else match value with
      | [] => .error (.valueIgnored s [])
      | [letter] =>
        match g.spellings.lookup [.scalar '-', letter] with
        | none => .error (.valueIgnored s [letter])
        | some other => do
          let (found, taken) ← g.readUse other true next none
          return (.switch s none :: found, taken)
      | letter :: c :: more =>
        match g.spellings.lookup [.scalar '-', letter] with
        | none => .error (.valueIgnored s (letter :: c :: more))
        | some other => do
          let (found, taken) ← g.readUse other true next (some (c :: more))
          return (.switch s none :: found, taken)
termination_by value => (value.map List.length).getD 0 + if value.isSome then 1 else 0

/-- Whether a piece is the separator. -/
def Piece.isSeparator : Piece → Bool
  | separator => true
  | _ => false

/-- Whether a piece is no switch. -/
def Piece.isPlain : Piece → Bool
  | switch _ _ => false
  | _ => true

/-- The number of pieces that an operand takes, if it can be taken from the start of the pieces. -/
def Operand.extent? (operand : Operand) (pieces : List Piece) : Option Nat :=
  let before := (pieces.takeWhile Piece.isSeparator).length
  match pieces.drop before with
  | .operand _ :: rest =>
    let after := match operand with
      | .oneFile => (rest.takeWhile Piece.isSeparator).length
      | .files => (rest.takeWhile Piece.isPlain).length
      | .command => rest.length
    some (before + 1 + after)
  | _ => none

/-- The values of an operand: a separator among files is dropped. -/
def Operand.values (operand : Operand) (pieces : List Piece) : List Text :=
  let raws := pieces.map Piece.raw
  match operand with
  | .command => raws
  | _ => raws.erase separatorText

/-- What a part of the command line holds: what has been read in order, and then either what is left
over or what is wrong with the rest. -/
structure Scanned where
  found : List Found := []
  left : Except Problem (List Text) := .ok []

namespace Scanned

/-- Puts something in front of what has been read. -/
def read (found : List Found) (s : Scanned) : Scanned := { s with found := found ++ s.found }

/-- Puts something in front of what is left over. -/
def leave (raw : Text) (s : Scanned) : Scanned := { s with left := s.left.map (raw :: ·) }

end Scanned

/-- Reads the pieces of a part; `pending` says that the operand has not been taken yet. -/
def Grammar.scan (g : Grammar) (pending : Bool) (pieces : List Piece) : Scanned :=
  match pieces with
  | [] => { left := if pending then .error (.operandMissing g.operand) else .ok [] }
  | piece :: rest =>
    match piece with
    | .switch raw none => (g.scan pending rest).leave raw
    | .switch _ (some use) =>
      match g.readUse use.switch (!startsLong use.spelling) rest.head? use.value with
      | .error problem => { left := .error problem }
      | .ok (found, taken) => (g.scan pending (rest.drop taken)).read found
    | plain =>
      match if pending then g.operand.extent? pieces else none with
      | some extent =>
        (g.scan false (rest.drop (extent - 1))).read
          [.operand (g.operand.values (pieces.take extent))]
      | none => (g.scan pending rest).leave plain.raw
termination_by pieces.length

/-- Reads the arguments of a part. -/
def Grammar.scanArguments (g : Grammar) (arguments : List Text) : Scanned :=
  match g.classifyAll arguments with
  | .error problem => { left := .error problem }
  | .ok pieces => g.scan true pieces

end Phrasebook.CommandLine
