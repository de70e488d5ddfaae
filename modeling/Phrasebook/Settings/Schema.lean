/-
# Phrasebook.Settings.Schema -- what a settings file may hold

A settings file holds a mapping with any of the settings; the others keep their defaults.  An empty
file sets nothing.  Keys that are no setting are refused.
-/
import Phrasebook.Settings
import Phrasebook.Shape.Decode

namespace Phrasebook

/-- Why the content of an input file is refused. -/
inductive ContentFlaw where
  | notMapping (found : Text)
  | mismatch (fault : DecodeFault)
  | bothForms
  | missingPackage
deriving DecidableEq, Repr

/-- The flaw in words. -/
def ContentFlaw.message : ContentFlaw → Text
  | .notMapping found => "expected a mapping at top level, got " ++ found
  | .mismatch fault => fault.message
  | .bothForms => "use either 'batches' or 'package'/'phrases', not both"
  | .missingPackage => "missing 'package'"

/-- Whether a flaw can be put into words. -/
def ContentFlaw.isWritable : ContentFlaw → Bool
  | .mismatch fault => fault.mismatch ≠ .unwritableKeys
  | _ => true

/-- The texts of a list. -/
def Value.texts (v : Value) : List Text := (v.asList?.getD []).map fun item => item.asText?.getD []

namespace Settings

/-- The settings as a record. -/
def toValue (s : Settings) : Value := .record "GeneratorSettings" [
  ("output_dir", .text s.outputDir),
  ("imports", .list (s.imports.map .text)),
  ("header", .text s.header),
  ("validate_identifiers", .bool s.validate)]

/-- The type of a settings file. -/
def shape : Shape :=
  let defaults : Settings := { }
  .record 0 "GeneratorSettings" [
    ⟨"output_dir", .primitive .text, some (.text defaults.outputDir)⟩,
    ⟨"imports", .listOf (.primitive .text), some (.list (defaults.imports.map .text))⟩,
    ⟨"header", .primitive .text, some (.text defaults.header)⟩,
    ⟨"validate_identifiers", .primitive .bool, some (.bool defaults.validate)⟩]

/-- The settings that a record holds. -/
def ofRecord (v : Value) : Settings where
  outputDir := (v.field "output_dir").asText?.getD []
  imports := (v.field "imports").texts
  header := (v.field "header").asText?.getD []
  validate := (v.field "validate_identifiers").asBool?.getD true

/-- The value that a settings file is read as: an empty one is an empty mapping. -/
def ofEmpty : Value → Value
  | .null => .map []
  | v => v

/-- The settings that the content of a file stands for. -/
def ofValue (v : Value) : Except ContentFlaw Settings :=
  match ofEmpty v with
  | .map entries =>
    match shape.decode [] (.map entries) with
    | .ok record => .ok (ofRecord record)
    | .error fault => .error (.mismatch fault)
  | v => .error (.notMapping v.typeName)

/-- The records built while the content of a file is read, in order. -/
def builtFrom (v : Value) : List Built := shape.built [] (ofEmpty v)

end Settings

end Phrasebook
