/-
# Phrasebook.Report.Schema -- the entries of reports as models

The entries of a report and of a listing can be read back from data.  A member may be given under its
name in the document or under the name of the field; lists and mappings may be left out.
-/
import Phrasebook.Shape.Model

namespace Phrasebook

/-- The model of a phrase in a listing. -/
def phraseModel : Model where
  name := "PhraseInfo"
  fields := [
    ⟨"name", .text, none, none⟩,
    ⟨"class_name", .text, some "className", none⟩,
    ⟨"documentation", .optional .text, none, some .null⟩,
    ⟨"tokens", .listOf .text, none, some (.list [])⟩,
    ⟨"slots", .mapOf .text .int, none, some (.map [])⟩]

/-- The model of a batch in a listing. -/
def batchModel : Model where
  name := "BatchInfo"
  fields := [
    ⟨"package", .text, none, none⟩,
    ⟨"phrases", .listOf (.model phraseModel), none, some (.list [])⟩]

/-- The model of a written file in a report. -/
def writtenFileModel : Model where
  name := "GeneratedFile"
  fields := [
    ⟨"package", .text, none, none⟩,
    ⟨"path", .text, none, none⟩,
    ⟨"phrase_count", .int, some "phraseCount", none⟩]

/-- The models of the entries. -/
def reportModels : List Model := [phraseModel, batchModel, writtenFileModel]

end Phrasebook
