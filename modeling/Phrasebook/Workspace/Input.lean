/-
# Phrasebook.Workspace.Input -- reading settings and phrase files

Input files are YAML in UTF-8.  A phrase file has to be there, while settings that are nowhere to be
found are the default ones.  Everything wrong with a file that has been read is reported with its
path.

Progress is told in the order in which the parts of a file are accepted, also when a later part is
refused.
-/
import Phrasebook.PhraseFile
import Phrasebook.Text.Lines
import Phrasebook.Workspace

namespace Phrasebook.Workspace

variable {m : Type → Type} [Monad m] [Workspace m]

/-- The name of a settings file. -/
def settingsFileName : Text := "paraphrase.yaml"

/-- Tells which records have been built, and where in the file. -/
def tellBuilt (records : List Built) : Task m Unit :=
  records.forM fun (name, path) =>
    let place : Text := if path.isEmpty then "$" else Text.join "." path
    tell .debug ("Built " ++ name ++ " at " ++ place)

/-- The value that the bytes of an input file stand for; `report` says what is wrong with them if they
are no YAML. -/
def document (report : InputFlaw → UserFault) (bytes : ByteArray) : Task m Value := do
  match Text.decode? bytes with
  | none => throw (.crash .undecodable)
  | some text =>
    match ← liftM (Workspace.parse (m := m) text.withLineFeeds) with
    | .ok value => return value
    | .error (.malformed problem) => throw (.user (report (.malformed problem)))
    | .error other => throw (.crash (.document other))

/-- Reads a file and makes something of its document. -/
def loadWith {α : Type} (read : Task m ByteArray) (report : InputFlaw → UserFault)
    (make : Value → Task m α) : Task m α := do
  let bytes ← read
  let value ← document report bytes
  make value

/-! ## Phrase files -/

/-- The content of a phrase file. -/
def readPhraseFile (path : Path) : Task m ByteArray := do
  match ← liftM (Workspace.read (m := m) path) with
  | .ok bytes => return bytes
  | .error .notFound => throw (.user (.phraseFile (some path) .notFound))
  | .error e =>
    if e.isFromSystem then throw (.user (.phraseFile (some path) (.unreadable e)))
    else throw (.crash (.system e))

/-- The packages of batches with the numbers of their phrases. -/
def summary (batches : List Batch) : Text :=
  Text.join ", " (batches.map fun b => b.package ++ "[" ++ Text.ofNat b.phrases.length ++ "]")

/-- The batches that the value of a phrase file stands for. -/
def batchesOf (path : Path) (value : Value) : Task m (List Batch) := do
  tellBuilt (PhraseFile.builtFrom value)
  match PhraseFile.read value with
  | .error flaw => throw (Fault.ofContent (.phraseFile (some path)) flaw)
  | .ok batches =>
    tell .debug ("Loaded " ++ Text.ofNat batches.length ++ " batch(es) from " ++ path.text ++
      ": " ++ summary batches)
    return batches

/-- The batches of a phrase file. -/
def loadPhrases (path : Path) : Task m (List Batch) :=
  loadWith (readPhraseFile path) (.phraseFile (some path)) (batchesOf path)

/-! ## Settings -/

/-- The settings file of a directory, if there is one. -/
def findSettings (directory : Path) : Task m (Option Path) := do
  let candidate ← resolved (directory.child settingsFileName)
  return if (← kind? candidate) = some .file then some candidate else none

/-- The content of a settings file. -/
def readSettingsFile (path : Path) : Task m ByteArray := do
  match ← liftM (Workspace.read (m := m) path) with
  | .ok bytes => return bytes
  | .error e =>
    if e.isFromSystem then throw (.user (.settings (some path) (.unreadable e)))
    else throw (.crash (.system e))

/-- The settings that the value of a settings file stands for. -/
def settingsOf (path : Path) (value : Value) : Task m Settings := do
  tellBuilt (Settings.builtFrom value)
  match Settings.ofValue value with
  | .error flaw => throw (Fault.ofContent (.settings (some path)) flaw)
  | .ok settings =>
    tell .debug ("Loaded settings from " ++ path.text ++ ": " ++ settings.toValue.literal)
    return settings

/-- Whether a settings file has to be read: one is named, and something is there. -/
def settingsFile? (path : Option Path) : Task m (Option Path) := do
  match path with
  | none =>
    tell .debug "No settings file, using defaults"
    return none
  | some path =>
    if (← kind? path).isNone then
      tell .debug ("No settings file at " ++ path.text ++ ", using defaults")
      return none
    return some path

/-- The settings of a file, or the default ones if there is none. -/
def loadSettings (path : Option Path) : Task m Settings := do
  match ← settingsFile? path with
  | none => return { }
  | some path => loadWith (readSettingsFile path) (.settings (some path)) (settingsOf path)

end Phrasebook.Workspace
