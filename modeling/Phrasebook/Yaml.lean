/-
# Phrasebook.Yaml -- values from YAML documents

Input files are documents of the data format YAML in its version 1.2.  `Yaml.load` gives the value of
the only document of a text, or the fault of the text.  First the text is read as far as its form is
right, and then its scalars and collections are given their values.  A text without a document is
null.

`Loader.load` reads a text with a loader that may have failed before, and tells what the loader is
like afterwards.

This is the reader of documents that the program uses.  The words for a malformed document are its own
and do not say where the fault is; ordered mappings, pairs and sets (`!!omap`, `!!pairs`, `!!set`) are
not supported, and a document that asks for version 1.1 is read by the rules of 1.2.  The theory of
commands holds for any other reader as well.
-/
import Phrasebook.Yaml.Document
import Phrasebook.Yaml.Grammar
import Phrasebook.Yaml.Layout
import Phrasebook.Yaml.Unfold

namespace Phrasebook.Yaml

/-- The characters of a text, if a document may hold them all. -/
def characters? (t : Text) : Option (List Char) :=
  t.mapM fun c => c.toChar?.filter isAllowed

/-- Reads the nodes of a text. -/
def Loader.compose (l : Loader) (document : List Char) : Except Fault (Option NodeId) × Loader :=
  let (ts, fault) := tokens document
  let start : Composer := { rest := ts, graph := l.graph, anchors := l.anchors }
  let atEnd := fault.getD (.malformed "found unexpected end of stream")
  let (root, c) := (Grammar.document atEnd).run start
  (root, { l with graph := c.graph, anchors := c.anchors })

/-- The value of the document that a text holds, and the loader after it. -/
def Loader.load (l : Loader) (t : Text) : Except Fault Value × Loader :=
  match characters? t with
  | none => (.error (.malformed "special characters are not allowed"), l)
  | some document =>
    match l.compose document with
    | (.error fault, l) => (.error fault, l)
    | (.ok none, l) => (.ok .null, l)
    | (.ok (some root), l) =>
      match (Loading.document root).run l with
      | (.error fault, l) => (.error fault, l)
      | (.ok item, l) => (.ok (l.graph.value item), { })

/-- The value of the document that a text holds. -/
def load (t : Text) : Except Fault Value := (Loader.load { } t).1

end Phrasebook.Yaml
