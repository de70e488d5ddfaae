/-
# Phrasebook.Yaml.Cursor -- a place in a document

A `Cursor` is what is left of a document and where that begins.  The line and the column decide about
indentation; a byte order mark takes no column.  Tests on the next character take the end of the
document for the end of a line.
-/
import Phrasebook.Yaml.Fault

namespace Phrasebook.Yaml

/-- What is left of a document, and the position of its beginning.  The size is that of the whole
document, so that no reading takes more steps. -/
structure Cursor where
  rest : List Char
  size : Nat := rest.length
  index : Nat := 0
  line : Nat := 0
  column : Nat := 0
deriving Inhabited

/-! ## Characters -/

/-- A line break; three of them are rarely written. -/
def isBreak (c : Char) : Bool :=
  c = '\n' || c = '\r' || c = '\x85' || c = '\u2028' || c = '\u2029'

/-- A space or a tab. -/
def isSpace (c : Char) : Bool := c = ' ' || c = '\t'

/-- A break or the end of the document. -/
def endsLine : Option Char → Bool
  | none => true
  | some c => isBreak c

/-- The end of a line, a space or a tab. -/
def endsWord : Option Char → Bool
  | none => true
  | some c => isBreak c || isSpace c

/-- A break, a space, or the end of the document. -/
def endsItem : Option Char → Bool
  | none => true
  | some c => isBreak c || c = ' '

/-- A character that documents may hold. -/
def isAllowed (c : Char) : Bool :=
  let n := c.toNat
  n = 0x09 || n = 0x0A || n = 0x0D || (0x20 ≤ n && n ≤ 0x7E) || n = 0x85 ||
    (0xA0 ≤ n && n ≤ 0xD7FF) || (0xE000 ≤ n && n ≤ 0xFFFD) || 0x10000 ≤ n

/-- The value of a hexadecimal digit. -/
def hexDigit? (c : Char) : Option Nat := CodePoint.hexValue? (.scalar c)

namespace Cursor

/-- The character a number of places ahead. -/
def peek? (c : Cursor) (ahead : Nat) : Option Char := c.rest[ahead]?

/-- The next character. -/
def next? (c : Cursor) : Option Char := c.rest.head?

/-- The cursor after the next character.  Only a line feed moves to a new line: the other breaks, as
far as columns are concerned, are characters of the line. -/
def step (c : Cursor) : Cursor :=
  match c.rest with
  | [] => c
  | ch :: rest =>
    if ch = '\n' then { c with rest, index := c.index + 1, line := c.line + 1, column := 0 }
    else if ch = '\uFEFF' then { c with rest, index := c.index + 1 }
    else { c with rest, index := c.index + 1, column := c.column + 1 }

/-- The cursor after a number of characters. -/
def skip (c : Cursor) : Nat → Cursor
  | 0 => c
  | n + 1 => c.step.skip n

/-- The characters up to the first one that fails a test, and the cursor there. -/
def span (c : Cursor) (test : Char → Bool) : List Char × Cursor :=
  let taken := c.rest.takeWhile test
  (taken, c.skip taken.length)

/-- The cursor after the characters that pass a test. -/
def skipWhile (c : Cursor) (test : Char → Bool) : Cursor := (c.span test).2

/-- The cursor after the rest of the line. -/
def skipLine (c : Cursor) : Cursor := c.skipWhile fun ch => !endsLine (some ch)

/-- The break at the cursor, as it counts in a text, and the cursor after it. -/
def break? (c : Cursor) : Option (Char × Cursor) :=
  match c.rest with
  | '\r' :: '\n' :: _ => some ('\n', c.skip 2)
  | ch :: _ =>
    if ch = '\u2028' || ch = '\u2029' then some (ch, c.step)
    else if isBreak ch then some ('\n', c.step)
    else none
  | [] => none

/-- Whether three marks of a sort stand at the cursor, and nothing else in the word. -/
def isMarker (c : Cursor) (mark : Char) : Bool :=
  c.rest.take 3 = [mark, mark, mark] && endsWord (c.peek? 3)

/-- Whether a document may begin or end at the cursor, judged by the marks alone. -/
def isSeparator (c : Cursor) : Bool := c.isMarker '-' || c.isMarker '.'

end Cursor

/-- Characters as a text. -/
def toText (cs : List Char) : Text := cs.map .scalar

end Phrasebook.Yaml
