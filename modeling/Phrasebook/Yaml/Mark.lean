/-
# Phrasebook.Yaml.Mark -- anchors, aliases, tags and directives

An anchor or an alias is a name after its mark.  A tag is written in full between angle brackets, or
as a suffix after a handle, which is an exclamation mark alone if no name follows it.  In a suffix,
characters may be written as escaped bytes of UTF-8.  A directive takes a line of its own.
-/
import Phrasebook.Text.Encoding
import Phrasebook.Yaml.Quoted
import Phrasebook.Yaml.Token

namespace Phrasebook.Yaml

/-! ## Names -/

/-- A letter, a digit, a dash or an underscore. -/
def isWordChar (c : Char) : Bool := c.isAlphanum || c = '-' || c = '_'

/-- A character of the name of an anchor. -/
def isAnchorChar (c : Char) : Bool :=
  let n := c.toNat
  !(",[]\x7b\x7d".toList.contains c) &&
    ((0x21 ≤ n && n ≤ 0x7E) || (0xA0 ≤ n && n ≤ 0xD7FF) ||
      (0xE000 ≤ n && n ≤ 0xFFFD && n ≠ 0xFEFF) || 0x10000 ≤ n)

/-- Whether the name of an anchor may end before a character. -/
def endsAnchor (c : Option Char) : Bool :=
  endsItem c || c.any fun ch => isSpace ch || "?:,[]\x7b\x7d%@\x60".toList.contains ch

/-- The name after the mark of an anchor or an alias. -/
def anchorName (c : Cursor) : Progress :=
  let (name, c) := c.step.span isAnchorChar
  if name.isEmpty || !endsAnchor c.next? then
    .error (.malformed "expected alphabetic or numeric character")
  else .ok (toText name, c)

/-! ## Tags -/

/-- The bytes written as percent signs with two digits each. -/
def escapedBytes : Nat → Cursor → List UInt8 → Except Fault (List UInt8 × Cursor)
  | 0, _, _ => .error .outOfSteps
  | fuel + 1, c, bytes =>
    if c.next? = some '%' then
      let digits := c.step.rest.take 2
      match hexNumber? digits with
      | some n =>
        if digits.length < 2 then
          .error (.malformed "expected URI escape sequence of 2 hexadecimal numbers")
        else escapedBytes fuel (c.skip 3) (bytes ++ [UInt8.ofNat n])
      | none => .error (.malformed "expected URI escape sequence of 2 hexadecimal numbers")
    else .ok (bytes, c)

/-- A character of a tag's suffix that stands for itself. -/
def isTagChar (c : Char) : Bool :=
  c.isAlphanum || "-;/?:@&=+$,_.!~*'()[]#".toList.contains c

/-- The characters of a suffix. -/
def tagSuffix : Nat → Cursor → Text → Progress
  | 0, _, _ => .error .outOfSteps
  | fuel + 1, c, text =>
    let (plain, c) := c.span isTagChar
    let text := text ++ toText plain
    if c.next? = some '%' then do
      let (bytes, c) ← escapedBytes (c.size + 1) c []
      match Text.decode? ⟨bytes.toArray⟩ with
      | some more => tagSuffix fuel c (text ++ more)
      | none => throw (.malformed "expected URI escape sequences of UTF-8")
    else if text.isEmpty then .error (.malformed "expected URI")
    else .ok (text, c)

/-- The suffix at the cursor, of which there has to be something. -/
def readSuffix (c : Cursor) : Progress := tagSuffix (c.size + 1) c []

/-- The handle at the cursor: an exclamation mark, or a word between two of them. -/
def readHandle (c : Cursor) : Progress :=
  if c.next? ≠ some '!' then .error (.malformed "expected '!'")
  else if c.peek? 1 = some ' ' then .ok ("!", c.step)
  else
    let (word, after) := c.step.span isWordChar
    if after.next? = some '!' then .ok ("!" ++ toText word ++ "!", after.step)
    else .error (.malformed "expected '!'")

/-- Whether another exclamation mark stands in the item after the first one. -/
def hasLongHandle (c : Cursor) : Bool :=
  (c.step.rest.takeWhile fun ch => !endsItem (some ch)).contains '!'

/-- The tag at the cursor. -/
def readTag (c : Cursor) : Except Fault (WrittenTag × Cursor) := do
  let (tag, c) ←
    if c.peek? 1 = some '<' then do
      let (suffix, c) ← readSuffix (c.skip 2)
      if c.next? ≠ some '>' then throw (.malformed "expected '>'")
      pure (WrittenTag.mk none suffix, c.step)
    else if endsWord (c.peek? 1) then pure (⟨none, "!"⟩, c.step)
    else do
      let (handle, c) ← if hasLongHandle c then readHandle c else pure (("!" : Text), c.step)
      let (suffix, c) ← readSuffix c
      pure (⟨some handle, suffix⟩, c)
  if !endsItem c.next? then throw (.malformed "expected ' '")
  return (tag, c)

/-! ## Directives -/

/-- The decimal number at the cursor. -/
def readNumber (c : Cursor) : Except Fault (Nat × Cursor) :=
  let (digits, c) := c.span Char.isDigit
  match Text.toNat? (toText digits) with
  | some n => .ok (n, c)
  | none => .error (.malformed "expected a digit")

/-- The version that a document asks for, of which only the first number decides. -/
def readVersion (c : Cursor) : Except Fault (Directive × Cursor) := do
  let (major, c) ← readNumber (c.skipWhile (· = ' '))
  if c.next? ≠ some '.' then throw (.malformed "expected a digit or '.'")
  let (_, c) ← readNumber c.step
  if !endsItem c.next? then throw (.malformed "expected a digit or ' '")
  return (.version major, c)

/-- A handle and what it is short for. -/
def readShorthand (c : Cursor) : Except Fault (Directive × Cursor) := do
  let (handle, c) ← readHandle (c.skipWhile (· = ' '))
  if c.next? ≠ some ' ' then throw (.malformed "expected ' '")
  let (start, c) ← readSuffix (c.skipWhile (· = ' '))
  if !endsItem c.next? then throw (.malformed "expected ' '")
  return (.handle handle start, c)

/-- The directive at the cursor, with its line. -/
def readDirective (c : Cursor) : Except Fault (Directive × Cursor) := do
  let (name, c) := c.step.span fun ch => isWordChar ch || ch = ':' || ch = '.'
  if name.isEmpty || !endsItem c.next? then
    throw (.malformed "expected alphabetic or numeric character")
  let (directive, c) ←
    if name = "YAML".toList then readVersion c
    else if name = "TAG".toList then readShorthand c
    else pure (.other, c.skipLine)
  let c := c.skipWhile (· = ' ')
  let c := if c.next? = some '#' then c.skipLine else c
  if !endsLine c.next? then throw (.malformed "expected a comment or a line break")
  return (directive, (c.break?.map Prod.snd).getD c)

end Phrasebook.Yaml
