/-
# Phrasebook.Workspace.Output -- writing generated files

The source file of a batch is written beside its place first and then moved there, so that a reader
never sees half of it.  Its text is complete before anything is written.  If writing fails, the
temporary file is removed; a failure to remove it is told and does not change the outcome.
-/
import Phrasebook.Target
import Phrasebook.Workspace

namespace Phrasebook.Workspace

variable {m : Type → Type} [Monad m] [Workspace m]

/-! ## The output root -/

/-- The directory under which files are written: the one given for this run, else the one of the
settings, which is taken from the place of the settings file. -/
def outputRoot (settings : Settings) (settingsFile override : Option Path) : Task m Path := do
  match override with
  | some path => resolved path
  | none =>
    let output := Path.ofText settings.outputDir
    if output.isAbsolute then return output
    let base ← match settingsFile with
      | some file => pure file.parent
      | none => liftM (Workspace.directory (m := m))
    resolved (base ++ output)

/-! ## Directories -/

/-- Makes a directory unless there is one, its parent being there. -/
def ensureDirectory (path : Path) : m (Except FileError Unit) := do
  match ← Workspace.makeDirectory path with
  | .ok () => return .ok ()
  | .error e =>
    if e = .notFound || !e.isFromSystem then return .error e
    match ← Workspace.status path with
    | .ok .directory => return .ok ()
    | .ok .file => return .error e
    | .error e' => return .error (if meansAbsent e' then e else e')

/-- Makes a directory unless there is one, and before it the directories above. -/
def ensureDirectories (path : Path) : m (Except FileError Unit) := do
  match ← ensureDirectory path with
  | .error .notFound =>
    if path.parts = [] then return .error .notFound
    match ← ensureDirectories path.parent with
    | .error e => return .error e
    | .ok () => ensureDirectory path
  | outcome => return outcome
termination_by path.parts.length
decreasing_by
  rename_i h
  have := List.length_pos_iff.mpr h
  simp only [Path.parent, List.length_dropLast]
  omega

/-! ## Files -/

/-- Removes a temporary file, if it is there. -/
def discard (path : Path) : Task m Unit := do
  match ← liftM (Workspace.remove (m := m) path) with
  | .ok () | .error .notFound => return
  | .error e =>
    if e.isFromSystem then
      tell .warning ("Failed to remove temporary file " ++ path.text ++ ": " ++ e.describe path.text)
    else throw (.crash (.system e))

/-- The fault of a file that could not be written. -/
def outputFault (path : Path) (e : FileError) : Fault :=
  if e.isFromSystem then .user (.output path e) else .crash (.system e)

/-- Writes a file beside its place and moves it there. -/
def replaceFile (path : Path) (text : Text) : Task m Unit := do
  let temporary := temporaryPath path
  let content := (Text.encode? text).getD .empty
  match ← liftM (Workspace.write (m := m) temporary content) with
  | .error e =>
    discard temporary
    throw (outputFault path e)
  | .ok () =>
    if (Text.encode? text).isNone then
      discard temporary
      throw (.crash .unencodable)
    match ← liftM (Workspace.rename (m := m) temporary path) with
    | .ok () => return
    | .error e =>
      discard temporary
      throw (outputFault path e)

/-! ## Batches -/

/-- The source text of a batch; each step is told. -/
def generate (batch : Batch) (settings : Settings) : Task m Text := do
  match sourceText batch settings with
  | .error fault => throw (Fault.ofSource fault)
  | .ok text =>
    Step.standard.forM fun step =>
      tell .debug ("Emission step " ++ step.label ++ " for " ++ batch.package)
    return text

/-- Writes the source file of a batch under an output root and gives its path. -/
def emit (root : Path) (settings : Settings) (batch : Batch) : Task m Path := do
  let text ← generate batch settings
  let target := targetPath root batch.package
  match ← liftM (ensureDirectories (m := m) target.parent) with
  | .error e => throw (outputFault target.parent e)
  | .ok () =>
    replaceFile target text
    tell .info ("Wrote " ++ target.text ++ " (" ++ Text.ofNat batch.phrases.length ++
      " phrase(s))")
    return target

end Phrasebook.Workspace
