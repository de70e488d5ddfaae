/-
# Phrasebook.PhraseFile -- what a phrase file may hold

A phrase file has one of two forms: a package with its phrases, or a list of batches of which each
has a package and phrases.  The two forms exclude each other, an explicit null counting as absence.

A phrase names its tokens in a list or leaves them to its text, whose placeholders they then are; a
list is taken as it is, even if it is empty.
-/
import Phrasebook.Phrase.Placeholder
import Phrasebook.Phrase
import Phrasebook.Settings.Schema

namespace Phrasebook

namespace PhraseFile

/-! ## Types -/

/-- The type of a phrase in a file. -/
def phraseShape : Shape := .record 0 "PhraseEntry" [
  ⟨"name", .primitive .text, none⟩,
  ⟨"doc", .optional (.primitive .text), some .null⟩,
  ⟨"tokens", .optional (.listOf (.primitive .text)), some .null⟩,
  ⟨"text", .optional (.primitive .text), some .null⟩]

/-- The type of a batch in a file. -/
def batchShape : Shape := .record 0 "BatchEntry" [
  ⟨"package", .primitive .text, none⟩,
  ⟨"phrases", .listOf phraseShape, some (.list [])⟩]

/-- The type of a whole file. -/
def shape : Shape := .record 0 "PhraseFile" [
  ⟨"package", .optional (.primitive .text), some .null⟩,
  ⟨"phrases", .optional (.listOf phraseShape), some .null⟩,
  ⟨"batches", .optional (.listOf batchShape), some .null⟩]

/-! ## From records to batches -/

/-- The tokens of a phrase: its list of tokens, else the placeholders of its text, else none. -/
def tokens (v : Value) : List Text :=
  match (v.field "tokens").asList? with
  | some _ => (v.field "tokens").texts
  | none => ((v.field "text").asText?.map tokensOfText).getD []

/-- The phrase that a record stands for. -/
def phrase (v : Value) : Phrase where
  name := (v.field "name").asText?.getD []
  documentation := (v.field "doc").asText?
  tokens := tokens v

/-- The phrases that a list of records stands for. -/
def phrases (v : Value) : List Phrase := (v.asList?.getD []).map phrase

/-- The batch that a record stands for. -/
def batch (v : Value) : Batch where
  package := (v.field "package").asText?.getD []
  phrases := phrases (v.field "phrases")

/-- The batches of a file that has been decoded. -/
def batchesOf (file : Value) : Except ContentFlaw (List Batch) :=
  match (file.field "batches").asList?, (file.field "package").asText?,
      (file.field "phrases").asList? with
  | some batches, none, none => .ok (batches.map batch)
  | some _, _, _ => .error .bothForms
  | none, none, _ => .error .missingPackage
  | none, some package, _ => .ok [⟨package, phrases (file.field "phrases")⟩]

/-- The batches that the content of a file stands for. -/
def read (v : Value) : Except ContentFlaw (List Batch) :=
  match v with
  | .map entries =>
    match shape.decode [] (.map entries) with
    | .ok file => batchesOf file
    | .error fault => .error (.mismatch fault)
  | v => .error (.notMapping v.typeName)

/-- The records built while the content of a file is read, in order. -/
def builtFrom (v : Value) : List Built := shape.built [] v

end PhraseFile

end Phrasebook
