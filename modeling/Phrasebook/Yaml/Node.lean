/-
# Phrasebook.Yaml.Node -- the nodes of a document and what becomes of them

The nodes of a document form a graph: an alias is another way to a node that is there already, which
may even contain the alias.  A node is therefore known by its number in the graph.  A scalar has its
text, and a collection the numbers of its parts.

While values are given to nodes, each node remembers what has been made of it.  A collection has a
value before it has been filled, so that others may hold it already; an `Item` is such a value, which
names a collection by its node.
-/
import Phrasebook.Value
import Phrasebook.Yaml.Tag

namespace Phrasebook.Yaml

/-- The number of a node. -/
abbrev NodeId := Nat

/-- What a node consists of.  A mapping keeps the pairs it has taken over from others apart, once it
has done so. -/
inductive Content where
  | scalar (text : Text)
  | sequence (items : Array NodeId)
  | mapping (pairs : Array (NodeId × NodeId)) (merged : Option (Array (NodeId × NodeId)))
deriving Inhabited, Repr

/-- The value of a node: a scalar's, or the collection that is made of a node, or a list that has
become a key.  What is no number is not equal to itself, so that it matters which node it is from;
`origin` tells it, except for the plain spelling, which always means the same. -/
inductive Item where
  | scalar (v : Value) (origin : Option NodeId)
  | collection (node : NodeId)
  | tuple (items : List Item)
deriving Inhabited, Repr

/-- The null item. -/
def Item.null : Item := .scalar .null none

/-- What a collection holds so far. -/
inductive Filling where
  | list (items : List Item)
  | map (entries : List (Item × Item))
deriving Inhabited, Repr

/-- A node with what has been made of it. -/
structure Node where
  tag : Tag
  content : Content
  /-- The value, once it has one. -/
  item : Option Item := none
  /-- A value is being made for the node. -/
  isOpen : Bool := false
  filling : Filling := .list []
deriving Inhabited, Repr

/-- The nodes by their numbers. -/
abbrev Graph := Array Node

namespace Graph

/-- The node with a number. -/
def node (g : Graph) (id : NodeId) : Node := g.getD id default

/-- Adds an item to a sequence. -/
def addItem (g : Graph) (id item : NodeId) : Graph :=
  g.modify id fun n => match n.content with
    | .sequence items => { n with content := .sequence (items.push item) }
    | _ => n

/-- Adds a pair to a mapping. -/
def addPair (g : Graph) (id key value : NodeId) : Graph :=
  g.modify id fun n => match n.content with
    | .mapping pairs merged => { n with content := .mapping (pairs.push (key, value)) merged }
    | _ => n

/-- The size of a node: one, and one for each of its parts. -/
def nodeSize (n : Node) : Nat :=
  match n.content with
  | .scalar _ => 1
  | .sequence items => 1 + items.size
  | .mapping pairs _ => 1 + pairs.size

/-- The number of nodes and of their parts.  No way through the graph that avoids repetition is
longer. -/
def extent (g : Graph) : Nat := g.foldl (fun n node => n + nodeSize node) 0

end Graph

end Phrasebook.Yaml
