/-
# Phrasebook.Report -- what a run tells about its work

Generating prints a report with one entry for each written file, in the order of writing; listing
prints the decoded phrases.  Both are JSON documents with a fixed order of members.

In a listing the tokens of a phrase are the names of members, and such a name must not hold a lone
surrogate: it is replaced, and of two members that get one name by that the later value counts.
-/
import Phrasebook.Json
import Phrasebook.Phrase
import Phrasebook.Text.Encoding

namespace Phrasebook

/-- A file that has been written for a batch. -/
structure WrittenFile where
  package : Text
  path : Text
  phraseCount : Nat
deriving DecidableEq, Repr

/-- The report of a generating run. -/
structure Report where
  toolVersion : Text
  outputRoot : Text
  files : List WrittenFile := []
deriving DecidableEq, Repr

namespace Report

/-- The version of the report's format. -/
def formatVersion : Nat := 1

/-- Adds the file written for a batch at the end. -/
def add (r : Report) (batch : Batch) (path : Text) : Report :=
  { r with files := r.files ++ [⟨batch.package, path, batch.phrases.length⟩] }

end Report

/-- The entry of a written file. -/
def WrittenFile.toJson (f : WrittenFile) : Json := .object [
  ("package", .text f.package),
  ("path", .text f.path),
  ("phraseCount", .int f.phraseCount)]

/-- A report as JSON. -/
def Report.toJson (r : Report) : Json := .object [
  ("formatVersion", .int Report.formatVersion),
  ("toolVersion", .text r.toolVersion),
  ("outputRoot", .text r.outputRoot),
  ("files", .list (r.files.map WrittenFile.toJson))]

/-- Sets a member: an old one keeps its place, a new one comes last. -/
def setMember (members : List (Text × Json)) (name : Text) (value : Json) : List (Text × Json) :=
  match members with
  | [] => [(name, value)]
  | (n, v) :: rest =>
    if n = name then (n, value) :: rest else (n, v) :: setMember rest name value

/-- The positions of a phrase's tokens as members. -/
def Phrase.slotMembers (p : Phrase) : List (Text × Json) :=
  p.slots.foldl (fun members (token, position) =>
    setMember members token.replaced (.int position)) []

/-- A phrase in a listing. -/
def Phrase.toJson (p : Phrase) : Json := .object [
  ("name", .text p.name),
  ("className", .text p.className),
  ("documentation", (p.documentation.map Json.text).getD .null),
  ("tokens", .list (p.tokens.map .text)),
  ("slots", .object p.slotMembers)]

/-- A batch in a listing. -/
def Batch.toJson (b : Batch) : Json := .object [
  ("package", .text b.package),
  ("phrases", .list (b.phrases.map Phrase.toJson))]

/-- Decoded batches as a listing. -/
def listing (batches : List Batch) : Json := .object [
  ("batches", .list (batches.map Batch.toJson))]

end Phrasebook
