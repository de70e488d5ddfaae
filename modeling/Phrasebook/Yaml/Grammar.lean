/-
# Phrasebook.Yaml.Grammar -- from tokens to nodes

The nodes of a document are read from its tokens by recursive descent.  What is left out where a node
could stand is an empty plain scalar; between brackets, a pair in a sequence is a mapping of its own.
An alias stands for the last node before it with the anchor that it names.

The tokens may break off at a fault, which counts as soon as a token is looked for in vain.  The
nodes read until then stay in the graph, and their anchors stay known.
-/
import Phrasebook.Yaml.Node
import Phrasebook.Yaml.Token

namespace Phrasebook.Yaml

/-- What is left of the tokens, the nodes read so far and the anchors, the last one first. -/
structure Composer where
  rest : List Token
  graph : Graph := #[]
  anchors : List (Text × NodeId) := []
  /-- The number of nodes around the next one. -/
  depth : Nat := 0

/-- A step that reads tokens. -/
abbrev Composing (α : Type) := ExceptT Fault (StateM Composer) α

/-- What nodes are read with: the meaning of tag handles, and the fault at the end of the tokens. -/
structure Grammar where
  handles : List (Text × Text)
  fault : Fault

/-- The anchor and the tag of a node. -/
structure Properties where
  anchor : Option Text := none
  tag : Option Text := none
deriving DecidableEq, Repr

namespace Composing

/-- Goes on after the next token. -/
def drop : Composing Unit := modify fun s => { s with rest := s.rest.tail }

/-- Adds a node, under its anchor if it has one. -/
def add (anchor : Option Text) (tag : Tag) (content : Content) : Composing NodeId :=
  modifyGet fun s =>
    let id := s.graph.size
    let anchors := (anchor.toList.map fun a => (a, id)) ++ s.anchors
    (id, { s with graph := s.graph.push { tag, content }, anchors })

/-- Adds the node that stands where none is written. -/
def addEmpty : Composing NodeId := add none .null (.scalar [])

/-- Adds a scalar. -/
def addScalar (p : Properties) (text : Text) (plain : Bool) : Composing NodeId :=
  add p.anchor (scalarTag p.tag text plain) (.scalar text)

/-- Adds a sequence without items. -/
def addSequence (p : Properties) : Composing NodeId :=
  add p.anchor (collectionTag p.tag .sequence) (.sequence #[])

/-- Adds a mapping without pairs. -/
def addMapping (p : Properties) : Composing NodeId :=
  add p.anchor (collectionTag p.tag .mapping) (.mapping #[] none)

/-- Adds an item to a sequence. -/
def addItem (id item : NodeId) : Composing Unit :=
  modify fun s => { s with graph := s.graph.addItem id item }

/-- Adds a pair to a mapping. -/
def addPair (id key value : NodeId) : Composing Unit :=
  modify fun s => { s with graph := s.graph.addPair id key value }

/-- The node that an alias names. -/
def named (name : Text) : Composing NodeId := do
  match (← get).anchors.lookup name with
  | some id => return id
  | none => throw (.malformed "found undefined alias")

/-- The number of nodes that may be around a node. -/
def depthLimit : Nat := 488

/-- Reads something one level deeper. -/
def deeper {α : Type} (read : Composing α) : Composing α := do
  let depth := (← get).depth
  if depthLimit ≤ depth then throw .tooDeep
  modify fun s => { s with depth := depth + 1 }
  let a ← read
  modify fun s => { s with depth }
  return a

end Composing

open Composing

namespace Grammar

/-- The next token, which stays the next one. -/
def peek (g : Grammar) : Composing Token := do
  match (← get).rest with
  | t :: _ => return t
  | [] => throw g.fault

/-- A tag in full. -/
def fullTag (g : Grammar) (t : WrittenTag) : Except Fault Text :=
  match t.handle with
  | none => .ok t.suffix
  | some handle =>
    match g.handles.lookup handle with
    | some start => .ok (start ++ t.suffix)
    | none => .error (.malformed "found undefined tag handle")

/-- The anchor and the tag at the beginning of a node, in either order. -/
def properties (g : Grammar) : Composing Properties := do
  match ← g.peek with
  | .anchor a =>
    drop
    match ← g.peek with
    | .tag t =>
      drop
      return ⟨some a, some (← g.fullTag t)⟩
    | _ => return ⟨some a, none⟩
  | .tag t =>
    drop
    match ← g.peek with
    | .anchor a =>
      drop
      return ⟨some a, some (← g.fullTag t)⟩
    | _ => return ⟨none, some (← g.fullTag t)⟩
  | _ => return { }

/-- Where a node stands, which decides about the collections it may be. -/
inductive Context where
  | flow
  | block
  /-- In a mapping, a sequence need not be indented. -/
  | blockPair
deriving DecidableEq, Repr

/-- Whether a token ends a part of a block collection. -/
def endsBlockPart : Token → Bool
  | .key | .value | .blockEnd => true
  | _ => false

/-- Whether a token ends a part of a collection between brackets. -/
def endsFlowPart (closing : Token) (t : Token) : Bool := t = .comma || t = closing

mutual

/-- Reads a node. -/
def node (g : Grammar) : Nat → Context → Composing NodeId
  | 0, _ => throw .outOfSteps
  | fuel + 1, context => do
    if let .alias name ← g.peek then
      drop
      named name
    else
      let p ← g.properties
      match ← g.peek with
      | .scalar text plain =>
        drop
        addScalar p text plain
      | .openSequence => do
        let id ← addSequence p
        drop
        deeper (g.flowItems fuel id true)
        return id
      | .openMapping => do
        let id ← addMapping p
        drop
        deeper (g.flowPairs fuel id true)
        return id
      | t =>
        if t = .entry && context = .blockPair then do
          let id ← addSequence p
          deeper (g.plainItems fuel id)
          return id
        else if t = .blockSequence && context ≠ .flow then do
          let id ← addSequence p
          drop
          deeper (g.blockItems fuel id)
          return id
        else if t = .blockMapping && context ≠ .flow then do
          let id ← addMapping p
          drop
          deeper (g.blockPairs fuel id)
          return id
        else if p = { } then throw (.malformed "expected the node content")
        else addScalar p [] true

/-- Reads a part of a collection, which is empty before a token that passes the test. -/
def part (g : Grammar) : Nat → Context → (Token → Bool) → Composing NodeId
  | 0, _, _ => throw .outOfSteps
  | fuel + 1, context, ends => do
    if ends (← g.peek) then addEmpty else g.node fuel context

/-- Reads the value of a pair, if there is one. -/
def pairValue (g : Grammar) : Nat → Context → (Token → Bool) → Composing NodeId
  | 0, _, _ => throw .outOfSteps
  | fuel + 1, context, ends => do
    if (← g.peek) = .value then
      drop
      g.part fuel context ends
    else addEmpty

/-- Reads the entries of an indented sequence. -/
def blockItems (g : Grammar) : Nat → NodeId → Composing Unit
  | 0, _ => throw .outOfSteps
  | fuel + 1, id => do
    match ← g.peek with
    | .entry =>
      drop
      addItem id (← g.part fuel .block fun t => t = .entry || t = .blockEnd)
      g.blockItems fuel id
    | .blockEnd => drop
    | _ => throw (.malformed "expected <block end>")

/-- Reads the entries of a sequence that is not indented. -/
def plainItems (g : Grammar) : Nat → NodeId → Composing Unit
  | 0, _ => throw .outOfSteps
  | fuel + 1, id => do
    if (← g.peek) = .entry then
      drop
      addItem id (← g.part fuel .block fun t => t = .entry || endsBlockPart t)
      g.plainItems fuel id

/-- Reads the pairs of an indented mapping. -/
def blockPairs (g : Grammar) : Nat → NodeId → Composing Unit
  | 0, _ => throw .outOfSteps
  | fuel + 1, id => do
    match ← g.peek with
    | .key =>
      drop
      let key ← g.part fuel .blockPair endsBlockPart
      addPair id key (← g.pairValue fuel .blockPair endsBlockPart)
      g.blockPairs fuel id
    | .value =>
      let key ← addEmpty
      addPair id key (← g.pairValue fuel .blockPair endsBlockPart)
      g.blockPairs fuel id
    | .blockEnd => drop
    | _ => throw (.malformed "expected <block end>")

/-- Reads the items of a sequence between brackets; a comma stands before each but the first. -/
def flowItems (g : Grammar) : Nat → NodeId → Bool → Composing Unit
  | 0, _, _ => throw .outOfSteps
  | fuel + 1, id, first => do
    match ← g.peek with
    | .closeSequence => drop
    | t =>
      if first then g.flowItem fuel id
      else if t = .comma then
        drop
        g.flowItem fuel id
      else throw (.malformed "expected ',' or ']'")

/-- Reads an item of a sequence between brackets and those that follow. -/
def flowItem (g : Grammar) : Nat → NodeId → Composing Unit
  | 0, _ => throw .outOfSteps
  | fuel + 1, id => do
    match ← g.peek with
    | .closeSequence => drop
    | .key =>
      let pair ← addMapping { }
      drop
      let ends := endsFlowPart .closeSequence
      deeper do
        let key ← g.part fuel .flow fun t => t = .value || ends t
        addPair pair key (← g.pairValue fuel .flow ends)
      addItem id pair
      g.flowItems fuel id false
    | _ =>
      addItem id (← g.node fuel .flow)
      g.flowItems fuel id false

/-- Reads the pairs of a mapping between brackets; a comma stands before each but the first. -/
def flowPairs (g : Grammar) : Nat → NodeId → Bool → Composing Unit
  | 0, _, _ => throw .outOfSteps
  | fuel + 1, id, first => do
    match ← g.peek with
    | .closeMapping => drop
    | t =>
      if first then g.flowPair fuel id
      else if t = .comma then
        drop
        g.flowPair fuel id
      else throw (.malformed "expected ',' or '\x7d'")

/-- Reads a pair of a mapping between brackets and those that follow.  A key alone has no value, even
if a colon follows it. -/
def flowPair (g : Grammar) : Nat → NodeId → Composing Unit
  | 0, _ => throw .outOfSteps
  | fuel + 1, id => do
    let ends := endsFlowPart .closeMapping
    match ← g.peek with
    | .closeMapping => drop
    | .key =>
      drop
      let key ← g.part fuel .flow fun t => t = .value || ends t
      addPair id key (← g.pairValue fuel .flow ends)
      g.flowPairs fuel id false
    | .value =>
      let key ← addEmpty
      addPair id key (← g.pairValue fuel .flow ends)
      g.flowPairs fuel id false
    | _ =>
      let key ← g.node fuel .flow
      addPair id key (← addEmpty)
      g.flowPairs fuel id false

end

/-! ## Documents -/

/-- The handles that need no directive. -/
def defaultHandles : List (Text × Text) := [("!", "!"), ("!!", "tag:yaml.org,2002:")]

/-- The directives before a document, of which the handles they declare are kept. -/
def directives (fault : Fault) : List Token → List (Text × Text) → Bool →
    Except Fault (List (Text × Text) × List Token)
  | .directive (.version major) :: ts, handles, versioned =>
    if versioned || major ≠ 1 then
      .error (.malformed "found duplicate or incompatible YAML directive")
    else directives fault ts handles true
  | .directive (.handle handle start) :: ts, handles, versioned =>
    if (handles.lookup handle).isSome then .error (.malformed "duplicate tag handle")
    else directives fault ts (handles ++ [(handle, start)]) versioned
  | .directive .other :: ts, handles, versioned => directives fault ts handles versioned
  | [], _, _ => .error fault
  | ts, handles, _ => .ok (handles, ts)

/-- Whether a token stands between documents. -/
def isBetweenDocuments : Token → Bool
  | .directive _ | .documentStart | .documentEnd | .streamEnd => true
  | _ => false

/-- Reads the content of a document, which may be empty after its explicit start. -/
def content (g : Grammar) (explicit : Bool) : Composing NodeId := do
  if explicit && isBetweenDocuments (← g.peek) then addEmpty
  else g.node (3 * (← get).rest.length + 3) .block

/-- Reads the directives and the start of a document; without either it starts at its content. -/
def start (fault : Fault) : Composing (Grammar × Bool) := do
  match ← peek ⟨[], fault⟩ with
  | .directive _ | .documentStart =>
    let (handles, rest) ← directives fault (← get).rest [] false
    if rest.head? ≠ some .documentStart then throw (.malformed "expected '<document start>'")
    modify fun s => { s with rest := rest.tail }
    return (⟨handles ++ defaultHandles, fault⟩, true)
  | _ => return (⟨defaultHandles, fault⟩, false)

/-- Reads the end of a document, which ends the meaning of its anchors.  There must not be another
document. -/
def finish (g : Grammar) : Composing Unit := do
  if (← g.peek) = .documentEnd then
    drop
    let _ ← g.peek
  modify fun s => { s with anchors := [] }
  if (← g.peek) ≠ .streamEnd then
    let _ ← directives g.fault (← get).rest [] false
    throw (.malformed "expected a single document in the stream")

/-- Reads the only document, if there is one; `fault` is the one at the end of the tokens. -/
def document (fault : Fault) : Composing (Option NodeId) := do
  if (← peek ⟨[], fault⟩) = .streamEnd then return none
  let (g, explicit) ← start fault
  let root ← g.content explicit
  g.finish
  return some root

end Grammar

end Phrasebook.Yaml
