/-
# Phrasebook.Emission -- from a batch to its source file

A source file is built by a list of steps, each of which adds its part to the file.  The steps for
the members need the outer class, which `openClass` opens; opening it again starts the class afresh.
`standardSteps` is the order in which files are generated.

If the settings ask for it, the names of the batch are checked before the first step.
-/
import Phrasebook.Emission.Members
import Phrasebook.Java.Printer
import Phrasebook.Settings
import Phrasebook.Validation

namespace Phrasebook

open Java (Node SourceFile TypeDecl NameFault PrintFault)

/-! ## Steps -/

/-- The steps that build a source file. -/
inductive Step where
  | header
  | imports
  | openClass
  | factories
  | builders
  | baseClass
  | hiddenConstructor
deriving DecidableEq, Repr

namespace Step

/-- All steps in the order in which they run. -/
def standard : List Step :=
  [header, imports, openClass, factories, builders, baseClass, hiddenConstructor]

/-- The name of a step in messages. -/
def label : Step → Text
  | header => "emit_header"
  | imports => "emit_imports"
  | openClass => "open_phrase_class"
  | factories => "emit_factories"
  | builders => "emit_phrase_classes"
  | baseClass => "emit_abstract_phrase"
  | hiddenConstructor => "emit_private_constructor"

/-- The step with a given name. -/
def ofLabel? (label : Text) : Option Step := standard.find? fun s => s.label = label

/-- The members that a step adds to the outer class. -/
def members (phrases : List Phrase) : Step → List Node
  | factories => phrases.map factoryMethod
  | builders => phrases.map fun p => (builderClass p).toNode
  | baseClass => [basePhraseClass.toNode]
  | hiddenConstructor => [Phrasebook.hiddenConstructor]
  | _ => []

end Step

/-- The outer class before it has members. -/
def emptyPhraseClass : TypeDecl where
  name := phraseClassName
  modifiers := [.isPublic, .isFinal]

/-- Why a source file cannot be generated. -/
inductive SourceFault where
  | name (fault : NameFault)
  | classNotOpened
  | print (fault : PrintFault)
deriving DecidableEq, Repr

/-- The fault in words. -/
def SourceFault.message : SourceFault → Text
  | name fault => fault.message
  | classNotOpened => "Phrase class has not been opened yet"
  | print fault => fault.message

/-- Adds members to the outer class; without any there is no need for the class to be open. -/
def addMembers (file : SourceFile) : List Node → Except SourceFault SourceFile
  | [] => .ok file
  | members =>
    match file.type with
    | none => .error .classNotOpened
    | some type => .ok { file with type := some { type with members := type.members ++ members } }

/-- Runs one step. -/
def runStep (settings : Settings) (phrases : List Phrase) (file : SourceFile) :
    Step → Except SourceFault SourceFile
  | .header => .ok { file with header := some settings.header }
  | .imports => .ok { file with imports := file.imports ++ settings.imports }
  | .openClass => .ok { file with type := some emptyPhraseClass }
  | step => addMembers file (step.members phrases)

/-! ## Files and their text -/

/-- The source file that a list of steps builds for a batch. -/
def buildFile (batch : Batch) (settings : Settings) (steps : List Step) :
    Except SourceFault SourceFile := do
  if settings.validate then batch.check.mapError .name
  steps.foldlM (runStep settings batch.phrases) { package := batch.package }

/-- The source file generated for a batch. -/
def sourceFile (batch : Batch) (settings : Settings) : Except SourceFault SourceFile :=
  buildFile batch settings Step.standard

/-- The source text generated for a batch. -/
def sourceText (batch : Batch) (settings : Settings) : Except SourceFault Text := do
  let file ← sourceFile batch settings
  file.print.mapError .print

end Phrasebook
