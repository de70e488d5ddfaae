/-
# Phrasebook.Proofs.Emission.File -- the source file that the standard steps build

Run in their standard order, the steps never fail and build one file: `generatedFile`.  The outer
class has first all factories, then all builders, then the base class and the hidden constructor.
Whether names are checked decides only whether there is a file, never what is in it.
-/
import Phrasebook.Emission
import Phrasebook.Proofs.Validation

namespace Phrasebook

open Java (Node SourceFile NameFault)

/-- The setters of a phrase for the tokens from a position on. -/
def settersFrom (p : Phrase) (position : Nat) (tokens : List Text) : List Node :=
  (tokens.zipIdx position).map fun (token, i) => setter p token i

@[simp] theorem settersFrom_cons (p : Phrase) (position : Nat) (token : Text) (tokens : List Text) :
    settersFrom p position (token :: tokens) =
      setter p token position :: settersFrom p (position + 1) tokens := rfl

/-- A builder has its constructor and then its setters. -/
theorem members_builderClass (p : Phrase) :
    (builderClass p).members = builderConstructor p :: settersFrom p 0 p.tokens := rfl

/-- The members of the outer class for a list of phrases. -/
def outerMembers (phrases : List Phrase) : List Node :=
  phrases.map factoryMethod ++ (phrases.map fun p => (builderClass p).toNode) ++
    [basePhraseClass.toNode, hiddenConstructor]

/-- What the members of the outer class are. -/
theorem mem_outerMembers {phrases : List Phrase} {node : Node} (h : node ∈ outerMembers phrases) :
    (∃ p ∈ phrases, node = factoryMethod p) ∨ (∃ p ∈ phrases, node = (builderClass p).toNode) ∨
      node = basePhraseClass.toNode ∨ node = hiddenConstructor := by
  rcases List.mem_append.mp h with h | h
  · rcases List.mem_append.mp h with h | h
    · obtain ⟨p, hp, rfl⟩ := List.mem_map.mp h
      exact Or.inl ⟨p, hp, rfl⟩
    · obtain ⟨p, hp, rfl⟩ := List.mem_map.mp h
      exact Or.inr (Or.inl ⟨p, hp, rfl⟩)
  · rcases List.mem_cons.mp h with rfl | h
    · exact Or.inr (Or.inr (Or.inl rfl))
    · exact Or.inr (Or.inr (Or.inr (List.mem_singleton.mp h)))

theorem isField_outerMembers (phrases : List Phrase) :
    ∀ node ∈ outerMembers phrases, node.isField = false := by
  intro node hm
  rcases mem_outerMembers hm with ⟨p, -, rfl⟩ | ⟨p, -, rfl⟩ | rfl | rfl <;> rfl

/-- The outer class for a list of phrases. -/
def outerClass (phrases : List Phrase) : Java.TypeDecl :=
  { emptyPhraseClass with members := outerMembers phrases }

/-- The source file of a batch, names unchecked. -/
def generatedFile (batch : Batch) (settings : Settings) : SourceFile where
  package := batch.package
  header := some settings.header
  imports := settings.imports
  type := some (outerClass batch.phrases)

/-- Adding members to an open class appends them. -/
theorem addMembers_open {file : SourceFile} {type : Java.TypeDecl} (h : file.type = some type)
    (members : List Node) :
    addMembers file members =
      .ok { file with type := some { type with members := type.members ++ members } } := by
  cases members with
  | nil =>
    rw [addMembers, List.append_nil, ← h]
  | cons m ms =>
    simp only [addMembers, h]

/-- The standard steps build the generated file. -/
theorem foldlM_standard (batch : Batch) (settings : Settings) :
    Step.standard.foldlM (runStep settings batch.phrases) { package := batch.package } =
      .ok (generatedFile batch settings) := by
  simp only [Step.standard, List.foldlM_cons, List.foldlM_nil, runStep, Step.members, bind,
    Except.bind, pure, Except.pure]
  rw [addMembers_open rfl]
  simp only
  rw [addMembers_open rfl]
  simp [addMembers, generatedFile, outerClass, outerMembers, emptyPhraseClass]

/-- If names are not checked or pass the check, the file is what the steps make of an empty one. -/
theorem buildFile_eq {batch : Batch} {settings : Settings}
    (h : settings.validate = false ∨ batch.check = .ok ()) (steps : List Step) :
    buildFile batch settings steps =
      steps.foldlM (runStep settings batch.phrases) { package := batch.package } := by
  unfold buildFile
  cases hv : settings.validate with
  | false => rfl
  | true =>
    rcases h with h | h
    · rw [hv] at h
      cases h
    · rw [if_pos rfl, h]
      rfl

/-- The file of a batch, if names are not checked or pass the check. -/
theorem sourceFile_eq {batch : Batch} {settings : Settings}
    (h : settings.validate = false ∨ batch.check = .ok ()) :
    sourceFile batch settings = .ok (generatedFile batch settings) := by
  rw [sourceFile, buildFile_eq h, foldlM_standard]

end Phrasebook
