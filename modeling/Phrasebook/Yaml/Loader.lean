/-
# Phrasebook.Yaml.Loader -- the state in which values are given to nodes

A loader reads one document after the other.  Collections are filled later than they are made: those
to be filled wait in a row, except inside a key, where all is filled at once.  A document that is read
to its end leaves nothing behind.  After a fault, what was waiting still waits: the next document
fills it first, so that the next document may bring up a fault of the one before.
-/
import Phrasebook.Yaml.Node

namespace Phrasebook.Yaml

/-- What a loader remembers. -/
structure Loader where
  graph : Graph := #[]
  /-- The nodes that aliases may name, the last one first. -/
  anchors : List (Text × NodeId) := []
  /-- The collections that wait to be filled, the first one first. -/
  waiting : Array NodeId := #[]
  /-- Collections are filled as soon as they are made. -/
  isDeep : Bool := false
deriving Inhabited, Repr

/-- A step of loading.  After a fault the state is kept. -/
abbrev Loading (α : Type) := ExceptT Fault (StateM Loader) α

namespace Loading

/-- The node with a number. -/
def node (id : NodeId) : Loading Node := do return (← get).graph.node id

/-- Changes a node. -/
def change (id : NodeId) (f : Node → Node) : Loading Unit :=
  modify fun s => { s with graph := s.graph.modify id f }

/-- Sets whether collections are filled at once. -/
def setDeep (isDeep : Bool) : Loading Unit := modify fun s => { s with isDeep }

/-- Lets a collection wait to be filled. -/
def delay (id : NodeId) : Loading Unit := modify fun s => { s with waiting := s.waiting.push id }

/-- The collections that wait, which do so no longer. -/
def takeWaiting : Loading (Array NodeId) := modifyGet fun s => (s.waiting, { s with waiting := #[] })

end Loading

end Phrasebook.Yaml
