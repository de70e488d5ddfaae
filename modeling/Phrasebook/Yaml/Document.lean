/-
# Phrasebook.Yaml.Document -- the value of a document

A sequence becomes a list and a mapping keeps the order of its pairs.  Keys have to differ, unless
pairs are taken over from other mappings; then the later one of two pairs counts.

Values are given from the outside to the inside: a collection is made when it is met, and filled
after everything that was made before.  So of several faults the one with the fewest collections
around it counts, and of those the first.  A key is given its value at once with all that is in it.
A node that is met again inside of itself before it has a value is null there.
-/
import Phrasebook.Yaml.Key
import Phrasebook.Yaml.Merge
import Phrasebook.Yaml.Scalar

namespace Phrasebook.Yaml

/-- The text of a scalar.  A mapping with a key `=` may stand for a scalar, the value of that key. -/
def Graph.scalarText? (g : Graph) : Nat → NodeId → Option Text
  | 0, _ => none
  | fuel + 1, id =>
    match (g.node id).content with
    | .scalar text => some text
    | .sequence _ => none
    | .mapping pairs _ =>
      (pairs.find? fun pair => (g.node pair.1).tag = .value).bind fun pair =>
        g.scalarText? fuel pair.2

/-- The item of a node that is no collection by its tag.  A day or a moment has to be a scalar
itself. -/
def Graph.scalarItem (g : Graph) (fuel : Nat) (id : NodeId) : Except Fault Item := do
  let n := g.node id
  if n.tag = .moment then
    if let .scalar _ := n.content then pure () else throw (.malformed "expected a scalar node")
  match g.scalarText? fuel id with
  | none => throw (.malformed "expected a scalar node")
  | some text =>
    let v ← scalarValue n.tag text
    return .scalar v (if v.isNan && isPlainNan text then none else some id)

namespace Loading

/-- The fault of a key that is there already; its message names the key and both values. -/
def repeatedKey (fuel : Nat) (named : List Item) : Loading Fault := do
  let graph := (← get).graph
  let (writable, _) := (named.allM (graph.isWritable fuel)).run []
  return if writable then .malformed "found duplicate key" else .badScalar

/-- Makes a collection of a sort, to be filled later or at once. -/
def makeCollection (id : NodeId) (filling : Filling) (fill : Loading Unit) : Loading Item := do
  change id fun n => { n with filling }
  if (← get).isDeep then fill else delay id
  return .collection id

/-- The entries that pairs of nodes make. -/
def entries (construct : Bool → NodeId → Loading Item) (fuel : Nat) (distinct : Bool)
    (pairs : Array NodePair) : Loading Entries :=
  pairs.foldlM (fun acc (keyNode, valueNode) => do
    let key ← construct true keyNode
    let key ← (← get).graph.asKey key
    let value ← construct false valueNode
    if let some name := (← get).graph.compositeItem? key then throw (.compositeKey name)
    if distinct then
      if let some old := acc.get? key then throw (← repeatedKey fuel [key, value, old])
    return acc.set key value) []

mutual

/-- The item of a node; `deep` says that all that is in it is needed at once. -/
def construct : Nat → Bool → NodeId → Loading Item
  | 0, _, _ => throw .outOfSteps
  | fuel + 1, deep, id => do
    let n ← node id
    if let some item := n.item then return item
    let before := (← get).isDeep
    if deep then setDeep true
    if n.isOpen then return .null
    change id fun n => { n with isOpen := true }
    let item ← match n.tag with
      | .sequence => makeCollection id (.list []) (fill fuel id)
      | .mapping => makeCollection id (.map []) (fill fuel id)
      | _ => do (← get).graph.scalarItem fuel id
    change id fun n => { n with item := some item, isOpen := false }
    if deep then setDeep before
    return item

/-- Fills the collection that has been made of a node. -/
def fill : Nat → NodeId → Loading Unit
  | 0, _ => throw .outOfSteps
  | fuel + 1, id => do
    let n ← node id
    match n.tag, n.content with
    | .sequence, .sequence items =>
      let items ← items.toList.mapM (construct fuel false)
      change id fun n => { n with filling := .list items }
    | .mapping, .mapping _ _ =>
      flatten fuel id #[]
      let all ← match (← node id).content with
        | .mapping pairs none => entries (construct fuel) fuel true pairs
        | .mapping pairs (some merged) => do
          let first ← entries (construct fuel) fuel false merged
          pure (first.update (← entries (construct fuel) fuel false pairs))
        | _ => throw (.malformed "expected a mapping node")
      change id fun n => { n with filling := .map all }
    | _, _ => throw (.malformed "expected a node of the sort of its tag")

end

/-- Fills what waits, and what comes to wait by that. -/
def fillWaiting (fuel : Nat) : Nat → Loading Unit
  | 0 => return
  | rounds + 1 => do
    let waiting ← takeWaiting
    if !waiting.isEmpty then
      waiting.forM (fill fuel)
      fillWaiting fuel rounds

/-- The item of a document's outermost node, with everything filled. -/
def document (root : NodeId) : Loading Item := do
  let extent := (← get).graph.extent
  let item ← construct (2 * extent + 2) false root
  fillWaiting (2 * extent + 2) (extent + 1)
  return item

end Loading

end Phrasebook.Yaml
