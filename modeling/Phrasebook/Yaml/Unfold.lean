/-
# Phrasebook.Yaml.Unfold -- from items to values

When everything is filled, the items of a document become values.  A collection that is met in
several places has one value, which is found once.  A collection that contains itself has no finite
value: it is unfolded a number of times and empty within that, which is more than any reader of values
in this library looks at.
-/
import Phrasebook.Yaml.Node

namespace Phrasebook.Yaml

/-- How often a collection that contains itself is unfolded. -/
def unfoldings : Nat := 8

/-- The values found so far in one pass over a graph. -/
structure Unfolding where
  values : Array (Option Value)
  /-- The collections that are being unfolded, the innermost first. -/
  around : List NodeId := []
  /-- A collection has been met inside of itself. -/
  isCyclic : Bool := false

namespace Unfolding

/-- Begins to unfold a collection. -/
def enter (u : Unfolding) (id : NodeId) : Unfolding := { u with around := id :: u.around }

/-- Ends the unfolding of a collection with its value. -/
def leave (u : Unfolding) (id : NodeId) (v : Value) : Unfolding :=
  { u with around := u.around.tail, values := u.values.setIfInBounds id (some v) }

/-- The value of an item; `inner` has the values of collections that are met inside of themselves. -/
def value (g : Graph) (inner : Array (Option Value)) : Nat → Item → StateM Unfolding Value
  | _, .scalar v _ => return v
  | 0, _ => return .null
  | fuel + 1, .tuple items => return .tuple (← items.mapM (value g inner fuel))
  | fuel + 1, .collection id => do
    let filling := (g.node id).filling
    if let some v := ((← get).values.getD id none) then return v
    if (← get).around.contains id then
      modify fun u => { u with isCyclic := true }
      return (inner.getD id none).getD (match filling with
        | .list _ => .list []
        | .map _ => .map [])
    modify (·.enter id)
    let v ← match filling with
      | .list items => do pure (Value.list (← items.mapM (value g inner fuel)))
      | .map entries => do
        pure (Value.map (← entries.mapM fun (k, w) => do
          return (← value g inner fuel k, ← value g inner fuel w)))
    modify (·.leave id v)
    return v

end Unfolding

/-- The value of an item of a graph.  Each pass goes once further into what contains itself. -/
def Graph.unfold (g : Graph) (item : Item) : Nat → Array (Option Value) → Value
  | 0, _ => .null
  | passes + 1, inner =>
    let start : Unfolding := { values := Array.replicate g.size none }
    let (v, u) := (Unfolding.value g inner (2 * g.size + 2) item).run start
    if u.isCyclic && 0 < passes then g.unfold item passes u.values else v

/-- The value of an item of a graph. -/
def Graph.value (g : Graph) (item : Item) : Value := g.unfold item unfoldings #[]

end Phrasebook.Yaml
