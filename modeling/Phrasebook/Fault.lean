/-
# Phrasebook.Fault -- why a command fails

Most faults are the user's to mend and are shown as one message: an input file that is missing or
wrong, a name that cannot be generated, a file that cannot be written, a package that is not there.
The others end a command without a message of its own.
-/
import Phrasebook.Emission
import Phrasebook.FileTree.Resolve
import Phrasebook.Settings.Schema
import Phrasebook.Yaml

namespace Phrasebook

/-! ## Faults for the user -/

/-- What is wrong with an input file. -/
inductive InputFlaw where
  | notFound
  | settingsNotFound
  | unreadable (error : FileError)
  | malformed (problem : Text)
  | content (flaw : ContentFlaw)
deriving DecidableEq, Repr

/-- The flaw in words. -/
def InputFlaw.message : InputFlaw → Text
  | .notFound => "file not found"
  | .settingsNotFound => "config file not found"
  | .unreadable error => "cannot read file: " ++ error.words
  | .malformed problem => "invalid YAML: " ++ problem
  | .content flaw => flaw.message

/-- Why no batch of a file can be chosen. -/
inductive ChoiceFlaw where
  | noSuchPackage (package : Text)
  | severalPackages (packages : List Text)
deriving DecidableEq, Repr

/-- The flaw in words. -/
def ChoiceFlaw.message : ChoiceFlaw → Text
  | .noSuchPackage package => "package '" ++ package ++ "' not found"
  | .severalPackages packages =>
    "several packages (" ++ Text.join ", " packages ++ "); choose one with --package"

/-- A fault that is shown to the user. -/
inductive UserFault where
  | phraseFile (path : Option Path) (flaw : InputFlaw)
  | settings (path : Option Path) (flaw : InputFlaw)
  | name (fault : Java.NameFault)
  | output (path : Path) (error : FileError)
  | choice (source : Path) (flaw : ChoiceFlaw)
deriving DecidableEq, Repr

/-- A message after the path of the file it is about. -/
def aboutFile (path : Option Path) (message : Text) : Text :=
  match path with
  | some path => path.text ++ ": " ++ message
  | none => message

/-- The fault in words. -/
def UserFault.message : UserFault → Text
  | .phraseFile path flaw => aboutFile path flaw.message
  | .settings path flaw => aboutFile path flaw.message
  | .name fault => fault.message
  | .output path error => "Failed to write " ++ path.text ++ ": " ++ error.words
  | .choice source flaw => aboutFile (some source) flaw.message

/-! ## All faults -/

/-- A fault that a command does not account for. -/
inductive Crash where
  | undecodable
  | unencodable
  | unwritable
  | document (fault : Yaml.Fault)
  | system (error : FileError)
  | linkLoop (path : Path)
  | source (fault : SourceFault)
deriving DecidableEq, Repr

/-- What is told about such a fault, if anything is. -/
def Crash.message? : Crash → Option Text
  | .document fault => fault.message?
  | .linkLoop path => some ("Symlink loop from " ++ path.text.quoted)
  | .source fault => some fault.message
  | _ => none

/-- Any fault of a command. -/
inductive Fault where
  | user (fault : UserFault)
  | crash (crash : Crash)
deriving DecidableEq, Repr

/-- The fault of a batch from which no source text can be generated. -/
def Fault.ofSource : SourceFault → Fault
  | .name fault => .user (.name fault)
  | fault => .crash (.source fault)

/-- A flaw in the content of a file as a fault, which is the user's if it can be put into words. -/
def Fault.ofContent (report : InputFlaw → UserFault) (flaw : ContentFlaw) : Fault :=
  if flaw.isWritable then .user (report (.content flaw)) else .crash .unwritable

/-- A resolution that failed as a fault. -/
def Fault.ofResolve : ResolveFault → Fault
  | .refused error => .crash (.system error)
  | .loop path => .crash (.linkLoop path)

end Phrasebook
