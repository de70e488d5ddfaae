/-
# Phrasebook.Yaml.Block -- scalars in indented lines

A block scalar has a header with the way its end is treated and possibly its indentation, and then
all lines that are indented at least so far.  Without a number in the header the first line that is
not empty decides; an empty line before it must not be indented further.  A literal scalar keeps its
line breaks, and a folded one turns a single break between lines that start with no blank into a
space.
-/
import Phrasebook.Yaml.Quoted

namespace Phrasebook.Yaml

/-- What becomes of the breaks at the end of a block scalar: none, one, or all are kept. -/
inductive Chomping where
  | strip
  | clip
  | keep
deriving DecidableEq, Repr

/-- The treatment of the end that a mark stands for. -/
def chomping? : Option Char → Option Chomping
  | some '+' => some .keep
  | some '-' => some .strip
  | _ => none

/-- The indentation that a digit stands for; zero is none. -/
def indentDigit? (c : Option Char) : Option Nat :=
  c.bind fun ch => if ch.isDigit then some (ch.toNat - 48) else none

/-- The header of a block scalar. -/
structure BlockHeader where
  chomping : Chomping
  increment : Option Nat
  cursor : Cursor

/-- Reads the marks of a header, which may come in either order. -/
def blockMarks (c : Cursor) : BlockHeader :=
  match chomping? c.next?, indentDigit? c.next? with
  | some chomping, _ =>
    match indentDigit? (c.peek? 1) with
    | some n => ⟨chomping, some n, c.skip 2⟩
    | none => ⟨chomping, none, c.step⟩
  | none, some n =>
    match chomping? (c.peek? 1) with
    | some chomping => ⟨chomping, some n, c.skip 2⟩
    | none => ⟨.clip, some n, c.step⟩
  | none, none => ⟨.clip, none, c⟩

/-- Reads the header of a block scalar with its line. -/
def blockHeader (c : Cursor) : Except Fault BlockHeader :=
  let header := blockMarks c
  if header.increment = some 0 || !endsItem header.cursor.next? then
    .error (.malformed "expected chomping or indentation indicators")
  else
    let c := header.cursor.skipWhile (· = ' ')
    let c := if c.next? = some '#' then c.skipLine else c
    if !endsLine c.next? then .error (.malformed "expected a comment or a line break")
    else match c.break? with
      | some (_, c) => .ok { header with cursor := c }
      | none => .ok { header with cursor := c }

/-- The empty lines before the first line of a block scalar, the greatest column that spaces reach in
them and before that line, and the column at the end of the first one. -/
def blockStart : Nat → Cursor → Text → Nat → Option Nat → Text × Nat × Option Nat × Cursor
  | 0, c, breaks, deepest, first => (breaks, deepest, first, c)
  | fuel + 1, c, breaks, deepest, first =>
    let deepest (after : Cursor) : Nat := if after.index = c.index then deepest else max deepest after.column
    let c := c.skipWhile (· = ' ')
    match c.break? with
    | none => (breaks, deepest c, first, c)
    | some (b, after) =>
      blockStart fuel after (breaks ++ [.scalar b]) (deepest c) (first.or (some c.column))

/-- The cursor after the spaces up to a column. -/
def skipTo (column : Nat) : Nat → Cursor → Cursor
  | 0, c => c
  | fuel + 1, c =>
    if c.column < column && c.next? = some ' ' then skipTo column fuel c.step else c

/-- The cursor after the indentation of a line. -/
def skipIndent (indent : Nat) (c : Cursor) : Cursor := skipTo indent c.size c

/-- The empty lines at the cursor, and the cursor after the indentation of the line that follows. -/
def blockBreaks (indent : Nat) : Nat → Cursor → Text → Text × Cursor
  | 0, c, breaks => (breaks, c)
  | fuel + 1, c, breaks =>
    let c := skipIndent indent c
    match c.break? with
    | none => (breaks, c)
    | some (b, c) => blockBreaks indent fuel c (breaks ++ [.scalar b])

/-- How the lines of a block scalar are read. -/
structure BlockStyle where
  folded : Bool
  indent : Nat
  /-- The scalar is not below any collection, so that a boundary of the document ends it. -/
  outermost : Bool

/-- A block scalar after some of its lines: its pieces, the last one first, the last break, and the
empty lines after it. -/
structure BlockLines where
  pieces : List Text := []
  lastBreak : Text := []
  breaks : Text
  cursor : Cursor

/-- Reads the lines of a block scalar. -/
def blockLines (style : BlockStyle) : Nat → BlockLines → BlockLines
  | 0, b => b
  | fuel + 1, b =>
    let c := b.cursor
    let (line, c') := c.span fun ch => !endsLine (some ch)
    let pieces := toText line :: b.breaks :: b.pieces
    let (lastBreak, c') : Text × Cursor := match c'.break? with
      | some (br, c') => ([.scalar br], c')
      | none => ([], c')
    let (breaks, c') := blockBreaks style.indent fuel c' []
    let read : BlockLines := ⟨pieces, lastBreak, breaks, c'⟩
    let atBoundary := style.outermost && c'.column = 0 && c'.isSeparator
    if atBoundary || c'.column ≠ style.indent || c'.rest.isEmpty then read
    else
      let isOpen (ch : Option Char) : Bool := !ch.any isSpace
      let isFolded := style.folded && lastBreak = "\n" && isOpen c.next? && isOpen c'.next?
      let joined : Text := if !isFolded then lastBreak else if breaks.isEmpty then " " else []
      blockLines style fuel { read with pieces := joined :: pieces }

/-- The text of the lines. -/
def BlockLines.text (b : BlockLines) : Text := b.pieces.reverse.flatten

/-- The text of a block scalar with its end treated. -/
def BlockLines.chomped (b : BlockLines) : Chomping → Text
  | .strip => b.text
  | .clip => b.text ++ b.lastBreak
  | .keep => b.text ++ b.lastBreak ++ b.breaks

/-- The block scalar at the cursor, below a collection of a given indentation. -/
def blockScalar (folded : Bool) (parent : Int) (c : Cursor) : Progress := do
  let header ← blockHeader c.step
  let fuel := c.size + 1
  let least := (parent + 1).toNat
  let (indent, breaks, c) ← match header.increment with
    | some n =>
      let indent := max least 1 + n - 1
      let (breaks, c) := blockBreaks indent fuel header.cursor []
      pure (indent, breaks, c)
    | none =>
      let (breaks, deepest, first, c) := blockStart fuel header.cursor [] 0 none
      if first.any fun f => 0 < f && f < deepest then
        throw (.malformed "more indented follow up line than first in a block scalar")
      pure (max least deepest, breaks, c)
  let start : BlockLines := { breaks, cursor := c }
  let style : BlockStyle := ⟨folded, indent, least = 0 && header.increment.isNone⟩
  let read := if c.column ≠ indent || c.rest.isEmpty then start else blockLines style fuel start
  return (read.chomped header.chomping, read.cursor)

end Phrasebook.Yaml
