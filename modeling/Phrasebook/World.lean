/-
# Phrasebook.World -- a workspace as a value

A world is a file tree on a host, with a working directory and the messages told so far.  Commands that
run in a world change nothing else, which makes their effects a matter of equations between worlds.

Nobody else changes a world, and what is printed is not kept in it.
-/
import Phrasebook.Host
import Phrasebook.Workspace

namespace Phrasebook

/-- A file tree, the working directory in it, what has been told, and the host. -/
structure World where
  tree : FileTree := { }
  directory : Place := []
  messages : List Message := []
  host : Host := .standard
deriving Inhabited

namespace World

/-- What the entry at the end of a path is. -/
def kindOf : Entry → FileKind
  | .directory => .directory
  | _ => .file

/-- The content of the file that a path leads to. -/
def read (w : World) (path : Path) : Except FileError ByteArray := w.host.read w.tree w.directory path

/-- Changes the file tree, unless the host or the tree refuses. -/
def change (c : Change) : StateM World (Except FileError Unit) := fun w =>
  match w.host.refuses w.tree c with
  | some refusal => (.error refusal.error, { w with tree := refusal.leaves c w.tree w.directory })
  | none =>
    match c.apply w.tree w.directory with
    | .ok tree => (.ok (), { w with tree })
    | .error e => (.error e, w)

/-- Asks the host and the file tree. -/
def ask {α : Type} (question : Host → FileTree → Place → α) : StateM World α := fun w =>
  (question w.host w.tree w.directory, w)

instance : Workspace (StateM World) where
  directory := ask fun _ _ directory => ⟨.root, directory⟩
  status path := ask fun _ tree directory => (tree.status directory path).map kindOf
  read path := ask fun host tree directory => host.read tree directory path
  makeDirectory path := change (.makeDirectory path)
  write path content := change (.write path content)
  rename source target := change (.rename source target)
  remove path := change (.remove path)
  resolve path := ask fun _ tree directory => tree.resolve directory path
  parse text := ask fun host _ _ => host.load text
  print text := ask fun host _ _ => host.takes text
  log message := modify fun w => { w with messages := w.messages ++ [message] }

/-- The lines of the messages from a level upwards. -/
def transcript (w : World) (level : Level) : List Text :=
  (w.messages.filter (Message.isShown level)).map Message.line

end World

end Phrasebook
