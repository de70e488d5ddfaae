/-
# Phrasebook.Yaml.Key -- items as keys of mappings

Scalars can be keys, and a list becomes a tuple when it is one.  A mapping cannot be a key, nor can a
tuple that holds a collection.
-/
import Phrasebook.Value.Spelling
import Phrasebook.Yaml.Node

namespace Phrasebook.Yaml

namespace Graph

/-- An item as a key. -/
def asKey (g : Graph) (item : Item) : Except Fault Item :=
  match item with
  | .collection id =>
    match (g.node id).filling with
    | .list items => .ok (.tuple items)
    | .map _ => .error (.malformed "found unhashable key")
  | item => .ok item

/-- The name of the type of the first item that keeps a tuple from being a key. -/
def compositeItem? (g : Graph) (key : Item) : Option Text :=
  match key with
  | .tuple items => items.findSome? fun
    | .collection id =>
      match (g.node id).filling with
      | .list _ => some "list"
      | .map _ => some "dict"
    | _ => none
  | _ => none

/-- Whether an item can be written, the collections that have been looked at being kept in the
state. -/
def isWritable (g : Graph) : Nat → Item → StateM (List NodeId) Bool
  | _, .scalar v _ => return v.isWritable
  | 0, _ => return true
  | fuel + 1, .tuple items => items.allM (isWritable g fuel)
  | fuel + 1, .collection id => do
    if (← get).contains id then return true
    modify (id :: ·)
    match (g.node id).filling with
    | .list items => items.allM (isWritable g fuel)
    | .map entries =>
      entries.allM fun (k, v) => do
        if ← isWritable g fuel k then isWritable g fuel v else return false

end Graph

mutual

/-- Whether two items are the same key. -/
def Item.sameKey : Item → Item → Bool
  | .scalar v o, .scalar w p => if v.isNan && w.isNan then o = p else v.sameKey w
  | .tuple as, .tuple bs => sameItems as bs
  | .collection a, .collection b => a = b
  | _, _ => false

/-- Whether two lists of items are the same key item by item. -/
def sameItems : List Item → List Item → Bool
  | [], [] => true
  | a :: as, b :: bs => a.sameKey b && sameItems as bs
  | _, _ => false

end

/-- The entries of a mapping. -/
abbrev Entries := List (Item × Item)

namespace Entries

/-- The value at a key. -/
def get? (entries : Entries) (key : Item) : Option Item :=
  (entries.find? fun entry => entry.1.sameKey key).map Prod.snd

/-- Sets a key: an old entry keeps its place and its key, a new one comes last. -/
def set (entries : Entries) (key value : Item) : Entries :=
  match entries with
  | [] => [(key, value)]
  | (k, v) :: rest => if k.sameKey key then (k, value) :: rest else (k, v) :: set rest key value

/-- The entries of one mapping, then those of another, the later value of a key winning. -/
def update (entries more : Entries) : Entries :=
  more.foldl (fun acc entry => acc.set entry.1 entry.2) entries

end Entries

end Phrasebook.Yaml
