/-
# Phrasebook.Yaml.Quoted -- scalars between quotation marks

Between apostrophes only the doubled apostrophe is special.  Between quotation marks a backslash
starts an escape, and one at the end of a line joins the lines.  Otherwise a line break is folded into
a space, and each further one is kept; blanks around a break are dropped.  A line that looks like the
boundary of a document may not occur.
-/
import Phrasebook.Yaml.Cursor

namespace Phrasebook.Yaml

/-- The character that a letter after a backslash stands for. -/
def escaped? (c : Char) : Option Char :=
  match c with
  | '0' => some '\x00'
  | 'a' => some '\x07'
  | 'b' => some '\x08'
  | 't' | '\t' => some '\t'
  | 'n' => some '\n'
  | 'v' => some '\x0b'
  | 'f' => some '\x0c'
  | 'r' => some '\r'
  | 'e' => some '\x1b'
  | ' ' | '"' | '/' | '\\' => some c
  | 'N' => some '\x85'
  | '_' => some '\xa0'
  | 'L' => some '\u2028'
  | 'P' => some '\u2029'
  | _ => none

/-- The number of hexadecimal digits that follow a letter after a backslash. -/
def escapeWidth? (c : Char) : Option Nat :=
  match c with
  | 'x' => some 2
  | 'u' => some 4
  | 'U' => some 8
  | _ => none

/-- The number that hexadecimal digits denote. -/
def hexNumber? (cs : List Char) : Option Nat :=
  cs.foldl (fun acc c => do return 16 * (← acc) + (← hexDigit? c)) (some 0)

/-- The number from which on an escape is far from any character. -/
def hugeNumber : Nat := 0x80000000

/-- A piece of text that has been read, and the cursor after it. -/
abbrev Progress := Except Fault (Text × Cursor)

/-- The breaks after a first one, blanks dropped. -/
def quotedBreaks : Nat → Cursor → Progress
  | 0, _ => .error .outOfSteps
  | fuel + 1, c =>
    if c.isSeparator then .error (.malformed "found unexpected document separator")
    else
      let c := c.skipWhile isSpace
      match c.break? with
      | some (b, c) => do
        let (breaks, c) ← quotedBreaks fuel c
        return (.scalar b :: breaks, c)
      | none => .ok ([], c)

/-- Blanks or a folded break. -/
def quotedSpace (fuel : Nat) (c : Cursor) : Progress :=
  let (blanks, c) := c.span isSpace
  match c.break? with
  | some (b, c) => do
    let (breaks, c) ← quotedBreaks fuel c
    let first : Text := if b ≠ '\n' then [.scalar b] else if breaks.isEmpty then " " else []
    return (first ++ breaks, c)
  | none =>
    if c.rest.isEmpty then .error (.malformed "found unexpected end of stream")
    else .ok (toText blanks, c)

/-- The character that an escape with a given number of digits stands for, the cursor being at the
first of them. -/
def numberedEscape (width : Nat) (c : Cursor) : Progress :=
  let digits := c.rest.take width
  match hexNumber? digits with
  | none => .error (.malformed "expected escape sequence of hexadecimal digits")
  | some n =>
    if digits.length < width then .error (.malformed "expected escape sequence of hexadecimal digits")
    else match CodePoint.ofNat? n with
      | some point => .ok ([point], c.skip width)
      | none => .error (if n < hugeNumber then .badScalar else .outOfRange)

/-- What an escape stands for, the cursor being after its backslash. -/
def quotedEscape (fuel : Nat) (c : Cursor) : Progress :=
  match c.next? with
  | none => .error (.malformed "found unknown escape character")
  | some letter =>
    match escaped? letter, escapeWidth? letter with
    | some ch, _ => .ok ([.scalar ch], c.step)
    | none, some width => numberedEscape width c.step
    | none, none =>
      match c.break? with
      | some (_, c) => quotedBreaks fuel c
      | none => .error (.malformed "found unknown escape character")

/-- Whether a character stands for itself between marks of either sort. -/
def isOrdinary (c : Char) : Bool :=
  !(isSpace c || isBreak c || c = '\'' || c = '"' || c = '\\')

/-- What a mark or a backslash at the cursor stands for, unless the scalar or the word ends there. -/
def quotedMark (double : Bool) (fuel : Nat) (c : Cursor) : Except Fault (Option (Text × Cursor)) :=
  match c.next? with
  | some '\'' =>
    if double then .ok (some ("'", c.step))
    else if c.peek? 1 = some '\'' then .ok (some ("'", c.skip 2))
    else .ok none
  | some '"' => .ok (if double then none else some ("\"", c.step))
  | some '\\' =>
    if double then (quotedEscape fuel c.step).map some else .ok (some ("\\", c.step))
  | _ => .ok none

/-- The characters up to a blank, a break or the closing mark. -/
def quotedWord (double : Bool) : Nat → Cursor → Progress
  | 0, _ => .error .outOfSteps
  | fuel + 1, c => do
    let (word, c) := c.span isOrdinary
    match ← quotedMark double fuel c with
    | none => return (toText word, c)
    | some (piece, c) =>
      let (rest, c) ← quotedWord double fuel c
      return (toText word ++ piece ++ rest, c)

/-- The characters up to and with the closing mark. -/
def quotedRest (double : Bool) : Nat → Cursor → Progress
  | 0, _ => .error .outOfSteps
  | fuel + 1, c => do
    let (word, c) ← quotedWord double fuel c
    if c.next? = some (if double then '"' else '\'') then return (word, c.step)
    let (space, c) ← quotedSpace fuel c
    let (rest, c) ← quotedRest double fuel c
    return (word ++ space ++ rest, c)

/-- The quoted scalar at the cursor. -/
def quotedScalar (double : Bool) (c : Cursor) : Progress :=
  quotedRest double (c.size + 2) c.step

end Phrasebook.Yaml
