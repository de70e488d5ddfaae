/-
# Phrasebook.Yaml.Plain -- scalars without any marks

A plain scalar goes on as long as nothing else can begin: up to a colon at the end of a word, a
comment, and inside brackets up to what separates or closes.  It may go over several lines if they are
indented deeply enough; then a line break is folded into a space, and each further one is kept.  Tabs
end it.
-/
import Phrasebook.Yaml.Quoted

namespace Phrasebook.Yaml

/-- Whether a plain scalar may begin with a character, if another one follows. -/
def startsPlain (inFlow : Bool) (c : Char) (following : Option Char) : Bool :=
  let isIndicator := isSpace c || isBreak c || "-?:,[]\x7b\x7d#&*!|>'\"%@\x60".toList.contains c
  if !isIndicator then true
  else if c = '-' then !endsWord following
  else if c = ':' then
    if inFlow then !following.any isSpace else !endsWord following
  else c = '?' && !inFlow && !endsWord following

/-- Whether a plain scalar goes on with a character, if another one follows. -/
def continuesPlain (inFlow : Bool) (c : Char) (following : Option Char) : Bool :=
  if c = ':' then !endsWord following
  else !endsWord (some c) && !(inFlow && ",[]\x7b\x7d".toList.contains c)

/-- The number of characters up to a blank or to the end of the scalar. -/
def plainLength (inFlow : Bool) : List Char → Nat
  | [] => 0
  | c :: cs => if continuesPlain inFlow c cs.head? then plainLength inFlow cs + 1 else 0

/-- The breaks after a first one, blanks dropped; nothing at the boundary of a document. -/
def plainBreaks : Nat → Cursor → Text → Option Text × Cursor
  | 0, c, _ => (none, c)
  | fuel + 1, c, breaks =>
    let c := c.skipWhile (· = ' ')
    match c.break? with
    | none => (some breaks, c)
    | some (b, c) =>
      if c.isSeparator then (none, c) else plainBreaks fuel c (breaks ++ [.scalar b])

/-- What stands between two words of a plain scalar: blanks, or breaks with the first one folded, and
whether there is a break.  Nothing is between them at the boundary of a document. -/
def plainSpace (fuel : Nat) (c : Cursor) : Text × Bool × Cursor :=
  let (blanks, c) := c.span (· = ' ')
  match c.break? with
  | none => (toText blanks, false, c)
  | some (b, c) =>
    if c.isSeparator then ([], true, c)
    else match plainBreaks fuel c [] with
      | (none, c) => ([], true, c)
      | (some breaks, c) =>
        let first : Text := if b ≠ '\n' then [.scalar b] else if breaks.isEmpty then " " else []
        (first ++ breaks, true, c)

/-- A plain scalar as it is read: its pieces, the last one first, and whether it ends at a line's
beginning. -/
structure Plain where
  pieces : List Text
  endsAtLineStart : Bool
  cursor : Cursor

/-- The text of a plain scalar. -/
def Plain.text (p : Plain) : Text := p.pieces.reverse.flatten

/-- Reads the words of a plain scalar; `space` is what stands before the next word. -/
def plainWords (inFlow : Bool) (indent : Int) : Nat → Plain → Text → Plain
  | 0, p, _ => p
  | fuel + 1, p, space =>
    let length := plainLength inFlow p.cursor.rest
    if p.cursor.next? = some '#' || length = 0 then p
    else
      let pieces := toText (p.cursor.rest.take length) :: space :: p.pieces
      let (space, broken, c) := plainSpace fuel (p.cursor.skip length)
      let p : Plain := ⟨pieces, broken, c⟩
      if space.isEmpty || c.next? = some '#' || (!inFlow && (c.column : Int) < indent) then p
      else plainWords inFlow indent fuel p space

/-- The plain scalar at the cursor; in a block, lines that belong to it have at least the given
indentation. -/
def plainScalar (inFlow : Bool) (indent : Int) (c : Cursor) : Plain :=
  plainWords inFlow indent (c.size + 1) ⟨[], false, c⟩ []

end Phrasebook.Yaml
