/-
# Phrasebook.Workspace -- what a command needs of its surroundings

A command works on files below a working directory, reads documents, prints and tells about its
progress.  `Workspace` lists the operations it may use; whatever offers them can run a command.
Operations report their failures as values, so that the commands decide what to make of them.

How documents are read is up to the workspace, too: nothing in a command depends on it.
-/
import Phrasebook.Fault
import Phrasebook.Logging

namespace Phrasebook

/-- What a path leads to. -/
inductive FileKind where
  | file
  | directory
deriving DecidableEq, Repr

/-- The operations on files, the reader of documents, standard output and the log. -/
class Workspace (m : Type → Type) where
  /-- The working directory. -/
  directory : m Path
  /-- What a path leads to, links followed. -/
  status : Path → m (Except FileError FileKind)
  /-- The content of a file. -/
  read : Path → m (Except FileError ByteArray)
  /-- Makes a directory, its parent being there. -/
  makeDirectory : Path → m (Except FileError Unit)
  /-- Writes a file, through links. -/
  write : Path → ByteArray → m (Except FileError Unit)
  /-- Moves a file or a link over another. -/
  rename : Path → Path → m (Except FileError Unit)
  /-- Removes a file or a link. -/
  remove : Path → m (Except FileError Unit)
  /-- The path without links. -/
  resolve : Path → m (Except ResolveFault Path)
  /-- The value of the document that a text holds. -/
  parse : Text → m (Except Yaml.Fault Value)
  /-- Prints a text, all of it or nothing, and says whether standard output has taken it. -/
  print : Text → m Bool
  /-- Tells about progress. -/
  log : Message → m Unit

/-- Work that may end in a fault. -/
abbrev Task (m : Type → Type) (α : Type) := ExceptT Fault m α

namespace Workspace

variable {m : Type → Type} [Monad m] [Workspace m]

/-- Tells something at a level. -/
def tell (level : Level) (text : Text) : Task m Unit := liftM (Workspace.log (m := m) ⟨level, text⟩)

/-- Whether an error only means that a path leads nowhere. -/
def meansAbsent (e : FileError) : Bool :=
  match e with
  | .notFound | .notDirectory | .tooManyLinks => true
  | e => !e.isFromSystem

/-- What a path leads to, if it leads anywhere. -/
def kind? (path : Path) : Task m (Option FileKind) := do
  match ← liftM (Workspace.status (m := m) path) with
  | .ok kind => return some kind
  | .error e => if meansAbsent e then return none else throw (.crash (.system e))

/-- A path without links. -/
def resolved (path : Path) : Task m Path := do
  match ← liftM (Workspace.resolve (m := m) path) with
  | .ok path => return path
  | .error fault => throw (Fault.ofResolve fault)

end Workspace

end Phrasebook
