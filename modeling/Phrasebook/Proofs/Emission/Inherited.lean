/-
# Phrasebook.Proofs.Emission.Inherited -- generated methods and those that are inherited

Every class inherits the instance methods of `Object`.  A static method may not have the signature
of one of them, and an instance method may not have that of one that is final.

The setters of a builder have one parameter each, a `String`, and so they clash neither with the
methods of the base class nor with the final ones of `Object`.  A factory has the name of its phrase
and no parameter.  Eight methods of `Object` have none either, and the check of a batch lets their
names pass: a phrase of such a name gives a class that does not compile, and no other phrase does.
-/
import Phrasebook.Proofs.Emission.Names

namespace Phrasebook

/-! ## Methods that are inherited -/

namespace Java

/-- An instance method that a class inherits. -/
structure Inherited where
  signature : Signature
  isFinal : Bool := false
deriving DecidableEq, Repr

/-- The instance methods that every class inherits from `Object`. -/
def objectMethods : List Inherited := [
  ⟨("clone", []), false⟩,
  ⟨("equals", ["Object"]), false⟩,
  ⟨("finalize", []), false⟩,
  ⟨("getClass", []), true⟩,
  ⟨("hashCode", []), false⟩,
  ⟨("notify", []), true⟩,
  ⟨("notifyAll", []), true⟩,
  ⟨("toString", []), false⟩,
  ⟨("wait", []), true⟩,
  ⟨("wait", ["long"]), true⟩,
  ⟨("wait", ["long", "int"]), true⟩]

/-- The names of the methods of `Object` that have no parameters. -/
def plainObjectMethods : List Text :=
  ["clone", "finalize", "getClass", "hashCode", "notify", "notifyAll", "toString", "wait"]

/-- The signatures of the static methods among members. -/
def staticMethods (members : List Node) : List Signature :=
  members.filterMap fun
    | .method head _ =>
      if !head.isConstructor && head.modifiers.contains .isStatic then some head.signature else none
    | _ => none

/-- The instance methods among members. -/
def instanceMethods (members : List Node) : List Inherited :=
  members.filterMap fun
    | .method head _ =>
      if head.isConstructor || head.modifiers.contains .isStatic then none
      else some ⟨head.signature, head.modifiers.contains .isFinal⟩
    | _ => none

/-- A static method among members hides an instance method of `Object`. -/
def HidesInherited (members : List Node) : Prop :=
  ∃ signature ∈ staticMethods members, ∃ m ∈ objectMethods, m.signature = signature

/-- An instance method among members overrides a final one of `Object`. -/
def OverridesFinal (members : List Node) : Prop :=
  ∃ method ∈ instanceMethods members, ∃ m ∈ objectMethods,
    m.isFinal = true ∧ m.signature = method.signature

theorem staticMethods_append (xs ys : List Node) :
    staticMethods (xs ++ ys) = staticMethods xs ++ staticMethods ys := List.filterMap_append

/-- The methods of `Object` without parameters are those named. -/
theorem mem_plainObjectMethods {name : Text} :
    name ∈ plainObjectMethods ↔ ∃ m ∈ objectMethods, m.signature = (name, []) := by
  constructor
  · intro h
    have hall : ∀ n ∈ plainObjectMethods, ∃ m ∈ objectMethods, m.signature = (n, []) := by decide
    exact hall name h
  · rintro ⟨m, hm, hsignature⟩
    have hall : ∀ m ∈ objectMethods, m.signature.2 = [] → m.signature.1 ∈ plainObjectMethods := by
      decide
    have hname := hall m hm (congrArg Prod.snd hsignature)
    rwa [hsignature] at hname

end Java

open Java

/-! ## Factories -/

/-- The static methods of the outer class are the factories. -/
theorem staticMethods_outerMembers (phrases : List Phrase) :
    staticMethods (outerMembers phrases) = phrases.map fun p => (p.name, []) := by
  have hfactories : staticMethods (phrases.map factoryMethod) =
      phrases.map fun p => (p.name, []) := by
    rw [staticMethods, List.filterMap_map]
    exact congrFun List.filterMap_eq_map phrases
  have hbuilders : staticMethods (phrases.map fun p => (builderClass p).toNode) = [] :=
    List.filterMap_eq_nil_iff.mpr (by simp [TypeDecl.toNode])
  rw [outerMembers, staticMethods_append, staticMethods_append, hfactories, hbuilders,
    List.append_nil]
  exact List.append_nil _

/-- The outer class hides a method of `Object` exactly if a phrase has the name of one. -/
theorem hidesInherited_outerMembers (phrases : List Phrase) :
    HidesInherited (outerMembers phrases) ↔ ∃ p ∈ phrases, p.name ∈ plainObjectMethods := by
  simp only [HidesInherited, staticMethods_outerMembers, List.mem_map, exists_exists_and_eq_and,
    mem_plainObjectMethods]

/-! ## Setters -/

/-- The instance methods of a builder are its setters. -/
theorem instanceMethods_setters (p : Phrase) (i : Nat) (tokens : List Text) :
    instanceMethods (settersFrom p i tokens) =
      tokens.map fun token => ⟨setterSignature token, false⟩ := by
  induction tokens generalizing i with
  | nil => rfl
  | cons token tokens ih =>
    rw [settersFrom_cons]
    exact congrArg (⟨setterSignature token, false⟩ :: ·) (ih (i + 1))

theorem instanceMethods_builderClass (p : Phrase) :
    instanceMethods (builderClass p).members =
      p.tokens.map fun token => ⟨setterSignature token, false⟩ :=
  instanceMethods_setters p 0 p.tokens

/-- No final method of `Object` has one parameter that is a `String`. -/
theorem not_overridesFinal_builderClass (p : Phrase) : ¬ OverridesFinal (builderClass p).members := by
  rintro ⟨method, hmethod, m, hm, hfinal, hsignature⟩
  rw [instanceMethods_builderClass] at hmethod
  obtain ⟨token, -, rfl⟩ := List.mem_map.mp hmethod
  have hnone : ∀ m ∈ objectMethods, m.isFinal = true → m.signature.2 ≠ ["String"] := by decide
  exact hnone m hm hfinal (congrArg Prod.snd hsignature)

/-- No method of the base class has one parameter that is a `String`. -/
theorem base_signature_ne (p : Phrase) :
    ∀ m ∈ instanceMethods (builderClass p).members,
      ∀ n ∈ instanceMethods basePhraseClass.members, n.signature ≠ m.signature := by
  intro m hm n hn hsignature
  rw [instanceMethods_builderClass] at hm
  obtain ⟨token, -, rfl⟩ := List.mem_map.mp hm
  have hnone : ∀ n ∈ instanceMethods basePhraseClass.members, n.signature.2 ≠ ["String"] := by decide
  exact hnone n hn (congrArg Prod.snd hsignature)

/-! ## The whole file -/

/-- In the file of an accepted batch the outer class hides a method of `Object` exactly if a phrase
has the name of one that has no parameters.  No builder overrides a method of the base class, nor a
final one of `Object`. -/
theorem inherited_of_check {batch : Batch} (h : batch.check = .ok ()) (settings : Settings) :
    ∃ file type, sourceFile batch settings = .ok file ∧ file.type = some type ∧
      (HidesInherited type.members ↔ ∃ p ∈ batch.phrases, p.name ∈ plainObjectMethods) ∧
      basePhraseClass.toNode ∈ type.members ∧
      ∀ p ∈ batch.phrases, (builderClass p).toNode ∈ type.members ∧
        (builderClass p).base = some basePhraseClass.name ∧
        ¬ OverridesFinal (builderClass p).members ∧
        ∀ m ∈ instanceMethods (builderClass p).members,
          ∀ n ∈ instanceMethods basePhraseClass.members, n.signature ≠ m.signature := by
  refine ⟨generatedFile batch settings, outerClass batch.phrases, sourceFile_eq (Or.inr h), rfl,
    hidesInherited_outerMembers batch.phrases, ?_, fun p hp => ⟨?_, rfl, ?_, base_signature_ne p⟩⟩
  · exact List.mem_append_right _ (List.mem_cons_self ..)
  · apply List.mem_append_left
    apply List.mem_append_right
    exact List.mem_map_of_mem hp
  · exact not_overridesFinal_builderClass p

/-- A batch with one phrase that has the name of a method of `Object` with parameters only, and with
a token that has the name of a final one. -/
def equalsBatch : Batch := ⟨"a", [⟨"equals", none, ["wait"]⟩]⟩

/-- Neither is a clash. -/
theorem inherited_equalsBatch :
    equalsBatch.check = .ok () ∧ ∃ file type, sourceFile equalsBatch {} = .ok file ∧
      file.type = some type ∧ ¬ HidesInherited type.members := by
  have hcheck : equalsBatch.check = .ok () := by decide
  obtain ⟨file, type, hfile, htype, hhides, -⟩ := inherited_of_check hcheck {}
  refine ⟨hcheck, file, type, hfile, htype, ?_⟩
  rw [hhides]
  decide

/-- A batch with one phrase that has the name of a method of `Object`. -/
def toStringBatch : Batch := ⟨"a", [⟨"toString", none, []⟩]⟩

/-- The batch is accepted, and its file hides the method. -/
theorem toString_hides :
    toStringBatch.check = .ok () ∧ ∃ file type, sourceFile toStringBatch {} = .ok file ∧
      file.type = some type ∧ HidesInherited type.members := by
  refine ⟨by decide, _, _, sourceFile_eq (Or.inr (by decide)), rfl, ?_⟩
  refine (hidesInherited_outerMembers toStringBatch.phrases).mpr ?_
  decide

end Phrasebook
