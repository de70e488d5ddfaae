/-
# Phrasebook.Yaml.Layout -- from characters to tokens

Block collections are opened by an item that stands further to the right than the ones around it, and
closed by one that stands further to the left; inside brackets indentation does not count.  Whether a
scalar is a key is known only when its colon is met: until then it is a `Candidate`, and the tokens
that make it a key are put in front of it later.  A candidate is given up at the end of its line and
after 1024 characters; at the left edge of a block mapping nothing but a key can stand, so that there
giving up is an error.
-/
import Phrasebook.Yaml.Block
import Phrasebook.Yaml.Mark
import Phrasebook.Yaml.Plain

namespace Phrasebook.Yaml

/-- The greatest length of a simple key with what precedes its colon. -/
def keyLimit : Nat := 1024

/-- A place at which a key may have begun. -/
structure Candidate where
  /-- The number of tokens before it. -/
  position : Nat
  /-- The number of brackets that are open around it. -/
  level : Nat
  /-- Nothing but a key can stand there. -/
  isRequired : Bool
  index : Nat
  line : Nat
  column : Nat
deriving Repr

/-- The sorts of brackets. -/
inductive Bracket where
  | sequence
  | mapping
deriving DecidableEq, Repr

/-- A document that has been read up to a cursor. -/
structure Layout where
  cursor : Cursor
  /-- The tokens read so far, the last one first, and their number. -/
  tokens : List Token := []
  count : Nat := 0
  /-- The column of the innermost block collection, or -1. -/
  indent : Int := -1
  /-- The columns of the collections around it. -/
  outer : List Int := []
  /-- The open brackets, the innermost first. -/
  brackets : List Bracket := []
  /-- Whether a key may begin at the cursor. -/
  keyAllowed : Bool := true
  candidates : List Candidate := []

namespace Layout

/-- The number of open brackets. -/
def level (l : Layout) : Nat := l.brackets.length

/-- Whether a bracket is open. -/
def inFlow (l : Layout) : Bool := !l.brackets.isEmpty

/-- Adds a token. -/
def push (l : Layout) (t : Token) : Layout := { l with tokens := t :: l.tokens, count := l.count + 1 }

/-- Puts a token where a number of tokens are before it. -/
def insertAt (l : Layout) (position : Nat) (t : Token) : Layout :=
  let later := l.count - position
  { l with tokens := l.tokens.take later ++ t :: l.tokens.drop later, count := l.count + 1 }

/-- Goes on after a number of characters. -/
def skip (l : Layout) (n : Nat) : Layout := { l with cursor := l.cursor.skip n }

/-! ## Candidates -/

/-- Gives up the candidates that pass a test. -/
def giveUp (l : Layout) (test : Candidate → Bool) : Except Fault Layout :=
  if l.candidates.any fun k => test k && k.isRequired then
    .error (.malformed "could not find expected ':'")
  else .ok { l with candidates := l.candidates.filter fun k => !test k }

/-- Gives up the candidates that are too far back. -/
def giveUpStale (l : Layout) : Except Fault Layout :=
  l.giveUp fun k => k.line ≠ l.cursor.line || keyLimit < l.cursor.index - k.index

/-- Gives up the candidate on the present level. -/
def giveUpHere (l : Layout) : Except Fault Layout :=
  let level := l.level
  l.giveUp fun k => k.level = level

/-- Makes the cursor a candidate, if a key may begin there. -/
def addCandidate (l : Layout) : Except Fault Layout := do
  if !l.keyAllowed then return l
  let l ← l.giveUpHere
  let candidate : Candidate :=
    { position := l.count
      level := l.level
      isRequired := !l.inFlow && l.indent = l.cursor.column
      index := l.cursor.index
      line := l.cursor.line
      column := l.cursor.column }
  return { l with candidates := candidate :: l.candidates }

/-! ## Indentation -/

/-- Closes the block collections that are indented further than a column. -/
def close (column : Int) : List Int → Layout → Layout
  | [], l => { l with outer := [] }
  | before :: outer, l =>
    if column < l.indent then close column outer { l.push .blockEnd with indent := before }
    else { l with outer := before :: outer }

/-- Closes the block collections that the column ends; inside brackets there are none. -/
def closeTo (l : Layout) (column : Int) : Layout :=
  if l.inFlow then l else close column l.outer l

/-- Opens a block collection at a column, if none has been opened there; its token comes at a
position. -/
def openAt (l : Layout) (column : Nat) (position : Nat) (opening : Token) : Layout :=
  if l.indent < column then
    { l.insertAt position opening with outer := l.indent :: l.outer, indent := column }
  else l

/-- Opens a block collection at the cursor, if none has been opened there. -/
def openHere (l : Layout) (opening : Token) : Layout :=
  l.openAt l.cursor.column l.count opening

/-! ## Items -/

/-- Skips blanks, comments and line breaks; a new line in a block allows a key. -/
def skipBlanks : Nat → Layout → Layout
  | 0, l => l
  | fuel + 1, l =>
    let c := l.cursor.skipWhile fun ch => ch = ' ' || (l.inFlow && ch = '\t')
    let c := if c.next? = some '#' then c.skipLine else c
    match c.break? with
    | some (_, c) => skipBlanks fuel { l with cursor := c, keyAllowed := l.keyAllowed || !l.inFlow }
    | none => { l with cursor := c }

/-- The end of the document's text. -/
def atEnd (l : Layout) : Except Fault Layout := do
  let l ← (l.closeTo (-1)).giveUpHere
  return { l.push .streamEnd with keyAllowed := false, candidates := [] }

/-- A directive. -/
def atDirective (l : Layout) : Except Fault Layout := do
  let l ← (l.closeTo (-1)).giveUpHere
  let (directive, cursor) ← readDirective l.cursor
  return { l.push (.directive directive) with cursor, keyAllowed := false }

/-- A boundary of the document. -/
def atBoundary (l : Layout) (t : Token) : Except Fault Layout := do
  let l ← (l.closeTo (-1)).giveUpHere
  return { (l.push t).skip 3 with keyAllowed := false }

/-- An opening bracket, which may begin a key. -/
def atOpening (l : Layout) (bracket : Bracket) (t : Token) : Except Fault Layout := do
  let l ← l.addCandidate
  return { (l.push t).skip 1 with brackets := bracket :: l.brackets, keyAllowed := true }

/-- A closing bracket. -/
def atClosing (l : Layout) (t : Token) : Except Fault Layout := do
  let l ← l.giveUpHere
  return { (l.push t).skip 1 with brackets := l.brackets.tail, keyAllowed := false }

/-- A comma between brackets. -/
def atComma (l : Layout) : Except Fault Layout := do
  let l ← l.giveUpHere
  return { (l.push .comma).skip 1 with keyAllowed := true }

/-- The mark of an entry. -/
def atEntry (l : Layout) : Except Fault Layout := do
  if !l.inFlow && !l.keyAllowed then throw (.malformed "sequence entries are not allowed here")
  let l := if l.inFlow then l else l.openHere .blockSequence
  let l ← l.giveUpHere
  return { (l.push .entry).skip 1 with keyAllowed := true }

/-- The mark of a key. -/
def atKey (l : Layout) : Except Fault Layout := do
  if !l.inFlow && !l.keyAllowed then throw (.malformed "mapping keys are not allowed here")
  let l := if l.inFlow then l else l.openHere .blockMapping
  let l ← l.giveUpHere
  return { (l.push .key).skip 1 with keyAllowed := !l.inFlow }

/-- The colon after the candidate of the present level, which is a key now. -/
def keyFound (l : Layout) (k : Candidate) : Layout :=
  let l := { l.insertAt k.position .key with
    candidates := l.candidates.filter fun other => other.level ≠ k.level
    keyAllowed := false }
  let l := if l.inFlow then l else l.openAt k.column k.position .blockMapping
  (l.push .value).skip 1

/-- The colon of a value. -/
def atValue (l : Layout) : Except Fault Layout := do
  let level := l.level
  match l.candidates.find? fun k => k.level = level with
  | some k => return l.keyFound k
  | none =>
    if !l.inFlow && !l.keyAllowed then throw (.malformed "mapping values are not allowed here")
    let l := if l.inFlow then l else l.openHere .blockMapping
    return { (l.push .value).skip 1 with keyAllowed := !l.inFlow }

/-- Something that may be a key and is read by a function. -/
def atItem (l : Layout) (read : Cursor → Except Fault (Token × Cursor)) : Except Fault Layout := do
  let l ← l.addCandidate
  let (t, cursor) ← read l.cursor
  return { l.push t with cursor, keyAllowed := false }

/-- A block scalar. -/
def atBlockScalar (l : Layout) (folded : Bool) : Except Fault Layout := do
  let l ← l.giveUpHere
  let (text, cursor) ← blockScalar folded l.indent l.cursor
  return { l.push (.scalar text false) with cursor, keyAllowed := true }

/-- A plain scalar. -/
def atPlain (l : Layout) : Except Fault Layout := do
  let l ← l.addCandidate
  let p := plainScalar l.inFlow (l.indent + 1) l.cursor
  return { l.push (.scalar p.text true) with cursor := p.cursor, keyAllowed := p.endsAtLineStart }

/-- Whether a colon at the cursor belongs to a pair.  In a sequence between brackets only one at the
end of a word does; in a mapping between brackets all do, except right after a colon whose key is
still a candidate for another one. -/
def isValueMark (l : Layout) (awaiting : Bool) : Bool :=
  let separated := endsWord (l.cursor.peek? 1)
  match l.brackets with
  | [] => separated
  | .sequence :: _ => separated
  | .mapping :: _ => separated || !(awaiting && l.tokens.head? = some .value)

/-- Reads one item, the cursor being at its first character; `awaiting` says that there were
candidates right after the item before. -/
def readItem (l : Layout) (awaiting : Bool) (ch : Char) : Except Fault Layout :=
  let following := l.cursor.peek? 1
  let atLeftEdge : Bool := l.cursor.column = 0
  if ch = '%' && atLeftEdge then l.atDirective
  else if atLeftEdge && l.cursor.isMarker '-' then l.atBoundary .documentStart
  else if atLeftEdge && l.cursor.isMarker '.' then l.atBoundary .documentEnd
  else match ch with
    | '[' => l.atOpening .sequence .openSequence
    | '\x7b' => l.atOpening .mapping .openMapping
    | ']' => l.atClosing .closeSequence
    | '\x7d' => l.atClosing .closeMapping
    | ',' => l.atComma
    | '*' => l.atItem fun c => (anchorName c).map fun (name, c) => (.alias name, c)
    | '&' => l.atItem fun c => (anchorName c).map fun (name, c) => (.anchor name, c)
    | '!' => l.atItem fun c => (readTag c).map fun (tag, c) => (.tag tag, c)
    | '\'' => l.atItem fun c => (quotedScalar false c).map fun (t, c) => (.scalar t false, c)
    | '"' => l.atItem fun c => (quotedScalar true c).map fun (t, c) => (.scalar t false, c)
    | _ =>
      if ch = '-' && endsWord following then l.atEntry
      else if ch = '?' && (l.inFlow || endsWord following) then l.atKey
      else if ch = ':' && l.isValueMark awaiting then l.atValue
      else if ch = '|' && !l.inFlow then l.atBlockScalar false
      else if ch = '>' && !l.inFlow then l.atBlockScalar true
      else if startsPlain l.inFlow ch following then l.atPlain
      else .error (.malformed "found character that cannot start any token")

/-- The number of tokens before which nothing is put any more. -/
def settled (l : Layout) : Nat :=
  l.candidates.foldl (fun n k => min n k.position) l.count

/-- Reads what comes next; the flag tells that it was the end. -/
def advance (l : Layout) : Except Fault (Layout × Bool) := do
  let awaiting := !l.candidates.isEmpty
  let l ← (skipBlanks (l.cursor.size + 1) l).giveUpStale
  let l := l.closeTo l.cursor.column
  match l.cursor.next? with
  | none => return (← l.atEnd, true)
  | some ch => return (← l.readItem awaiting ch, false)

/-- The first tokens, a number of them. -/
def firstTokens (l : Layout) (n : Nat) : List Token := l.tokens.reverse.take n

/-- Reads all that is left, a number of tokens having been settled before.  Before a fault there are
the tokens that were settled when the reading went on to it. -/
def readAll : Nat → Nat → Layout → List Token × Option Fault
  | 0, settled, l => (l.firstTokens settled, some .outOfSteps)
  | fuel + 1, settled, l =>
    match l.giveUpStale with
    | .error fault => (l.firstTokens settled, some fault)
    | .ok l =>
      match l.advance with
      | .error fault => (l.firstTokens l.settled, some fault)
      | .ok (next, true) => (next.firstTokens next.count, none)
      | .ok (next, false) => readAll fuel l.settled next

end Layout

/-- The tokens of a document, or those that are settled before its first fault.  A byte order mark at
the beginning does not count. -/
def tokens (document : List Char) : List Token × Option Fault :=
  let start : Cursor := { rest := document }
  let cursor := if start.next? = some '\uFEFF' then start.step else start
  Layout.readAll (document.length + 2) 0 { cursor }

end Phrasebook.Yaml
