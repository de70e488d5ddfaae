/-
# Phrasebook.Yaml.Merge -- pairs that one mapping takes over from others

A key `<<` stands for the pairs of other mappings: of the one that is its value, or of those in the
sequence that is its value, the last of them first.  They are put in front of the mapping's own pairs,
after the same has been done in the mappings they come from.  A second such key is refused if the
first one has given any pairs.

A key `=` is a text like any other, which is settled on the same occasion.
-/
import Phrasebook.Yaml.Loader

namespace Phrasebook.Yaml

/-- A pair of nodes. -/
abbrev NodePair := NodeId × NodeId

namespace Node

/-- The pairs of a mapping. -/
def pairs (n : Node) : Array NodePair :=
  match n.content with
  | .mapping pairs _ => pairs
  | _ => #[]

/-- Whether a node is a mapping. -/
def isMapping (n : Node) : Bool :=
  match n.content with
  | .mapping _ _ => true
  | _ => false

/-- A mapping without the pair at a position. -/
def withoutPair (n : Node) (i : Nat) : Node :=
  match n.content with
  | .mapping pairs merged => { n with content := .mapping (pairs.eraseIdxIfInBounds i) merged }
  | _ => n

/-- A mapping that has taken over some pairs. -/
def withMerged (n : Node) (more : Array NodePair) : Node :=
  match n.content with
  | .mapping pairs _ => { n with content := .mapping (more ++ pairs) (some more) }
  | _ => n

end Node

namespace Loading

/-- The position of the first key `<<` of a mapping, and its value. -/
def mergePair? (n : Node) : Loading (Option (Nat × NodeId)) := do
  let graph := (← get).graph
  let isMerge (pair : NodePair) : Bool := (graph.node pair.1).tag = .merge
  return do
    let i ← n.pairs.findIdx? isMerge
    let (_, value) ← n.pairs[i]?
    return (i, value)

/-- Makes the keys `=` of a mapping texts. -/
def settleKeys (n : Node) : Loading Unit :=
  n.pairs.forM fun (key, _) =>
    change key fun k => if k.tag = .value then { k with tag := .text } else k

/-- Takes over pairs into a mapping, `merged` being those found so far. -/
def flatten : Nat → NodeId → Array NodePair → Loading Unit
  | 0, _, _ => throw .outOfSteps
  | fuel + 1, id, merged => do
    match ← mergePair? (← node id) with
    | none =>
      settleKeys (← node id)
      if !merged.isEmpty then change id (·.withMerged merged)
    | some (i, value) =>
      if !merged.isEmpty then throw (.malformed "found duplicate merge key")
      change id (·.withoutPair i)
      let pairsOf (source : NodeId) : Loading (Array NodePair) := do
        if !(← node source).isMapping then throw (.malformed "expected a mapping for merging")
        flatten fuel source #[]
        return (← node source).pairs
      let more ← match (← node value).content with
        | .sequence items => do
          let groups ← items.toList.mapM pairsOf
          pure (groups.reverse.foldl (· ++ ·) #[])
        | _ => pairsOf value
      flatten fuel id (merged ++ more)

end Loading

end Phrasebook.Yaml
