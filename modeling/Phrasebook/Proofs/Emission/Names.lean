/-
# Phrasebook.Proofs.Emission.Names -- generated files are well named exactly for legal batches

The names of a generated file are those of its batch and what is made of them: every phrase gives a
method and a class `Phrase_…` to the outer class, every token a method and its parameter to the
builder.  Besides there are the fixed names.  None of these ever clash unless two phrases or two
tokens of one phrase do, so the check of a batch is exact (`check_iff_wellNamed`).
-/
import Mathlib.Data.List.Nodup
import Phrasebook.Proofs.Emission.File
import Phrasebook.Proofs.Java.Declared

namespace Phrasebook

open Java

/-! ## Names of builder classes -/

/-- The name of a builder class is an identifier if that of its phrase is. -/
theorem isIdentifier_className {p : Phrase} (h : isIdentifier p.name = true) :
    isIdentifier p.className = true := by
  have hplain : isPlainName p.name = true := (Bool.and_eq_true_iff.mp h).1
  refine Bool.and_eq_true_iff.mpr ⟨?_, ?_⟩
  · show (isIdentifierStart 'P' && (builderNameStart.tail ++ p.name).all isIdentifierPart) = true
    rw [List.all_append, Bool.and_eq_true_iff, Bool.and_eq_true_iff]
    exact ⟨by decide, by decide, List.all_eq_true.mpr (isIdentifierPart_of_mem hplain)⟩
  · -- No reserved word goes on from `Phrase_`.
    have hnone : ∀ w ∈ reservedWords, ¬ builderNameStart <+: w := by decide
    rw [Bool.not_eq_true', List.contains_eq_mem, decide_eq_false_iff_not]
    exact fun hm => hnone _ hm (List.prefix_append _ _)

/-- No builder class is named like the outer class or the base class. -/
theorem className_ne {p : Phrase} :
    p.className ≠ phraseClassName ∧ p.className ≠ basePhraseClassName := by
  constructor
  · intro h
    have := congrArg List.length h
    simp only [Phrase.className, List.length_append] at this
    have hstart : builderNameStart.length = 7 := by decide
    have hclass : phraseClassName.length = 6 := by decide
    omega
  · intro h
    have hhead : some (CodePoint.scalar 'P') = some (.scalar 'A') := congrArg List.head? h
    exact absurd hhead (by decide)

/-! ## What a builder declares -/

theorem declaredNames_setters (p : Phrase) (i : Nat) (tokens : List Text) :
    declaredNamesOf (settersFrom p i tokens) = tokens.flatMap fun t => [t, t] := by
  induction tokens generalizing i with
  | nil => rfl
  | cons t ts ih =>
    rw [settersFrom_cons, declaredNamesOf, ih]
    rfl

theorem declaredTypes_setters (p : Phrase) (i : Nat) (tokens : List Text) :
    declaredTypesOf (settersFrom p i tokens) = [] := by
  induction tokens generalizing i with
  | nil => rfl
  | cons t ts ih =>
    rw [settersFrom_cons, declaredTypesOf, ih]
    rfl

theorem nestedNames_setters (p : Phrase) (i : Nat) (tokens : List Text) :
    nestedNames (settersFrom p i tokens) = [] := by
  induction tokens generalizing i with
  | nil => rfl
  | cons t ts ih =>
    rw [settersFrom_cons]
    exact ih (i + 1)

/-- The signature of the setter for a token. -/
def setterSignature (token : Text) : Signature := (token, ["String"])

/-- Setters are methods with one parameter each. -/
theorem signatures_setters (p : Phrase) (i : Nat) (tokens : List Text) :
    signatures false (settersFrom p i tokens) = tokens.map setterSignature ∧
      signatures true (settersFrom p i tokens) = [] := by
  induction tokens generalizing i with
  | nil => exact ⟨rfl, rfl⟩
  | cons t ts ih =>
    obtain ⟨hmethods, hconstructors⟩ := ih (i + 1)
    rw [settersFrom_cons]
    exact ⟨congrArg (setterSignature t :: ·) hmethods, hconstructors⟩

/-- The names of a builder class: its own, that of its constructor, and each token twice. -/
theorem declaredNames_builderClass (p : Phrase) :
    declaredNames (builderClass p).toNode =
      p.className :: p.className :: p.tokens.flatMap fun t => [t, t] := by
  show p.className :: (p.className :: declaredNamesOf (settersFrom p 0 p.tokens)) = _
  rw [declaredNames_setters]

theorem declaredTypes_builderClass (p : Phrase) :
    declaredTypes (builderClass p).toNode =
      [((builderClass p).toTypeHead, (builderClass p).members)] := by
  show _ :: declaredTypesOf (settersFrom p 0 p.tokens) = _
  rw [declaredTypes_setters]

/-- A builder class has no clashing members exactly if its tokens are different. -/
theorem distinctMembers_builderClass (p : Phrase) :
    DistinctMembers (builderClass p).toTypeHead (builderClass p).members ↔ p.tokens.Nodup := by
  obtain ⟨hmethods, hconstructors⟩ := signatures_setters p 0 p.tokens
  have hm : signatures false (builderClass p).members = p.tokens.map setterSignature := hmethods
  have hc : signatures true (builderClass p).members = [(p.className, [])] :=
    congrArg ((p.className, []) :: ·) hconstructors
  have hn : nestedNames (builderClass p).members = [] := nestedNames_setters p 0 p.tokens
  have hinj : Function.Injective setterSignature := fun s t h => congrArg Prod.fst h
  constructor
  · intro h
    exact (List.nodup_map_iff hinj).mp (hm ▸ h.methods)
  · intro h
    refine ⟨by simp [hn], by simp [hn], ?_, by simp [hc]⟩
    rw [hm]
    exact (List.nodup_map_iff hinj).mpr h

/-! ## What the outer class declares -/

/-- The names of the members of the outer class, apart from the fixed ones. -/
theorem mem_declaredNames_outer {phrases : List Phrase} {n : Text} :
    n ∈ declaredNamesOf (outerMembers phrases) ↔
      (∃ p ∈ phrases, n = p.name ∨ n = p.className ∨ n ∈ p.tokens) ∨
        n ∈ declaredNamesOf [basePhraseClass.toNode, hiddenConstructor] := by
  have hfactory : ∀ p : Phrase, declaredNames (factoryMethod p) = [p.name] := fun _ => rfl
  rw [outerMembers, declaredNamesOf_append, declaredNamesOf_append, declaredNamesOf_map,
    declaredNamesOf_map]
  simp only [List.mem_append, List.mem_flatMap, declaredNames_builderClass, hfactory,
    List.mem_cons, List.not_mem_nil, or_false]
  refine or_congr ?_ Iff.rfl
  constructor
  · rintro (⟨p, hp, h⟩ | ⟨p, hp, h | h | ⟨t, ht, h⟩⟩)
    · exact ⟨p, hp, Or.inl h⟩
    · exact ⟨p, hp, Or.inr (Or.inl h)⟩
    · exact ⟨p, hp, Or.inr (Or.inl h)⟩
    · exact ⟨p, hp, Or.inr (Or.inr (h.elim (· ▸ ht) (· ▸ ht)))⟩
  · rintro ⟨p, hp, h | h | h⟩
    · exact Or.inl ⟨p, hp, h⟩
    · exact Or.inr ⟨p, hp, Or.inl h⟩
    · exact Or.inr ⟨p, hp, Or.inr (Or.inr ⟨n, h, Or.inl rfl⟩)⟩

/-- The types nested in the outer class: the builders and the base class. -/
theorem declaredTypesOf_outerMembers (phrases : List Phrase) :
    declaredTypesOf (outerMembers phrases) =
      (phrases.map fun p => ((builderClass p).toTypeHead, (builderClass p).members)) ++
        [(basePhraseClass.toTypeHead, basePhraseClass.members)] := by
  have hfactories : declaredTypesOf (phrases.map factoryMethod) = [] := by
    rw [declaredTypesOf_map]
    exact List.flatMap_eq_nil_iff.mpr fun _ _ => rfl
  rw [outerMembers, declaredTypesOf_append, declaredTypesOf_append, hfactories, declaredTypesOf_map]
  simp only [declaredTypes_builderClass, List.nil_append, ← List.map_eq_flatMap]
  rfl

theorem nestedNames_outerMembers (phrases : List Phrase) :
    nestedNames (outerMembers phrases) = phrases.map Phrase.className ++ [basePhraseClassName] := by
  have hfactories : nestedNames (phrases.map factoryMethod) = [] :=
    List.filterMap_eq_nil_iff.mpr (by simp [factoryMethod])
  have hbuilders : nestedNames (phrases.map fun p => (builderClass p).toNode) =
      phrases.map Phrase.className := by
    rw [nestedNames, List.filterMap_map]
    exact congrFun List.filterMap_eq_map phrases
  rw [outerMembers, nestedNames_append, nestedNames_append, hfactories, hbuilders]
  rfl

/-- The methods of the outer class are the factories, and it has one constructor. -/
theorem signatures_outerMembers (phrases : List Phrase) :
    signatures false (outerMembers phrases) = phrases.map (fun p => (p.name, [])) ∧
      signatures true (outerMembers phrases) = [(phraseClassName, [])] := by
  have hfactories : signatures false (phrases.map factoryMethod) =
      phrases.map (fun p => (p.name, [])) := by
    rw [signatures, List.filterMap_map]
    exact congrFun List.filterMap_eq_map phrases
  have hnoConstructors : signatures true (phrases.map factoryMethod) = [] :=
    List.filterMap_eq_nil_iff.mpr (by simp [factoryMethod, MethodHead.isConstructor])
  have hbuilders : ∀ constructors, signatures constructors
      (phrases.map fun p => (builderClass p).toNode) = [] := fun _ =>
    List.filterMap_eq_nil_iff.mpr (by simp [TypeDecl.toNode])
  constructor
  · rw [outerMembers, signatures_append, signatures_append, hfactories, hbuilders, List.append_nil]
    exact List.append_nil _
  · rw [outerMembers, signatures_append, signatures_append, hnoConstructors, hbuilders]
    rfl

/-- The outer class has no clashing members exactly if the phrases have different names. -/
theorem distinctMembers_outer (phrases : List Phrase) :
    DistinctMembers emptyPhraseClass.toTypeHead (outerMembers phrases) ↔
      (phrases.map Phrase.name).Nodup := by
  obtain ⟨hmethods, hconstructors⟩ := signatures_outerMembers phrases
  have hm : signatures false (outerMembers phrases) =
      (phrases.map Phrase.name).map fun n => (n, []) := by
    rw [hmethods, List.map_map]
    rfl
  -- Methods and nested classes are both made of the phrase names, each by an injective function.
  have hinj : Function.Injective fun n : Text => ((n, []) : Signature) :=
    fun s t h => congrArg Prod.fst h
  have hclasses : phrases.map Phrase.className =
      (phrases.map Phrase.name).map (builderNameStart ++ ·) := by
    rw [List.map_map]
    rfl
  constructor
  · intro h
    exact (List.nodup_map_iff hinj).mp (hm ▸ h.methods)
  · intro h
    refine ⟨?_, ?_, hm ▸ (List.nodup_map_iff hinj).mpr h, by simp [hconstructors]⟩
    · rw [nestedNames_outerMembers, List.nodup_append]
      refine ⟨?_, List.nodup_singleton _, ?_⟩
      · rw [hclasses]
        exact (List.nodup_map_iff (List.append_right_injective builderNameStart)).mpr h
      · intro n hn m hm
        obtain ⟨p, -, rfl⟩ := List.mem_map.mp hn
        rw [List.mem_singleton.mp hm]
        exact className_ne.2
    · rw [nestedNames_outerMembers, List.mem_append, List.mem_map, List.mem_singleton]
      rintro (⟨p, -, h⟩ | h)
      · exact className_ne.1 h
      · exact absurd h (by decide)

/-! ## The whole file -/

/-- The fixed names of the base class and of the hidden constructor are legal. -/
theorem isIdentifier_fixed :
    ∀ n ∈ phraseClassName :: declaredNamesOf [basePhraseClass.toNode, hiddenConstructor],
      isIdentifier n = true := by
  decide

/-- The members of the base class do not clash, the three `build` methods differing in their
parameters. -/
theorem distinctMembers_base :
    DistinctMembers basePhraseClass.toTypeHead basePhraseClass.members :=
  ⟨by decide, by decide, by decide, by decide⟩

theorem declaredNames_outerClass (phrases : List Phrase) :
    declaredNames (outerClass phrases).toNode =
      phraseClassName :: declaredNamesOf (outerMembers phrases) := rfl

theorem declaredTypes_outerClass (phrases : List Phrase) :
    declaredTypes (outerClass phrases).toNode =
      (emptyPhraseClass.toTypeHead, outerMembers phrases) ::
        ((phrases.map fun p => ((builderClass p).toTypeHead, (builderClass p).members)) ++
          [(basePhraseClass.toTypeHead, basePhraseClass.members)]) := by
  rw [← declaredTypesOf_outerMembers]
  rfl

/-- Every rejected batch has a name that is illegal or that clashes. -/
theorem legal_of_wellNamed {batch : Batch} {settings : Settings}
    (h : (generatedFile batch settings).WellNamed) : batch.Legal := by
  have hnames : ∀ n ∈ declaredNames (outerClass batch.phrases).toNode, LegalIdentifier n :=
    h.names _ rfl
  have htypes : ∀ t ∈ declaredTypes (outerClass batch.phrases).toNode, DistinctMembers t.1 t.2 :=
    h.distinct _ rfl
  rw [declaredNames_outerClass] at hnames
  rw [declaredTypes_outerClass] at htypes
  -- What is asked of all declared names is read off for those that come from a phrase.
  have hlegal : ∀ p ∈ batch.phrases, ∀ n, n = p.name ∨ n = p.className ∨ n ∈ p.tokens →
      isIdentifier n = true := fun p hp n hn =>
    (legalIdentifier_iff n).mp (hnames n (List.mem_cons_of_mem _
      (mem_declaredNames_outer.mpr (Or.inl ⟨p, hp, hn⟩))))
  refine ⟨(legalPackage_iff _).mp h.package, fun p hp => ⟨?_, ?_, ?_⟩, ?_⟩
  · exact hlegal p hp _ (Or.inl rfl)
  · exact fun t ht => hlegal p hp t (Or.inr (Or.inr ht))
  · exact (distinctMembers_builderClass p).mp (htypes _ (List.mem_cons_of_mem _
      (List.mem_append_left _ (List.mem_map_of_mem hp))))
  · exact (distinctMembers_outer _).mp (htypes _ (List.mem_cons_self ..))

/-- In the file of a legal batch nothing is illegal and nothing clashes. -/
theorem wellNamed_of_legal {batch : Batch} (h : batch.Legal) (settings : Settings) :
    (generatedFile batch settings).WellNamed := by
  refine ⟨(legalPackage_iff _).mpr h.package, ?_, ?_⟩
  · rintro _ ⟨⟩ n hn
    rw [legalIdentifier_iff]
    rcases List.mem_cons.mp hn with hn | hn
    · exact isIdentifier_fixed n (hn ▸ List.mem_cons_self ..)
    · rcases mem_declaredNames_outer.mp hn with ⟨p, hp, rfl | rfl | ht⟩ | hn
      · exact (h.phrases p hp).name
      · exact isIdentifier_className (h.phrases p hp).name
      · exact (h.phrases p hp).tokens n ht
      · exact isIdentifier_fixed n (List.mem_cons_of_mem _ hn)
  · rintro _ ⟨⟩ t ht
    have ht := (declaredTypes_outerClass batch.phrases) ▸ ht
    rcases List.mem_cons.mp ht with rfl | ht
    · exact (distinctMembers_outer _).mpr h.distinct
    · rcases List.mem_append.mp ht with ht | ht
      · obtain ⟨p, hp, rfl⟩ := List.mem_map.mp ht
        exact (distinctMembers_builderClass p).mpr (h.phrases p hp).distinct
      · rw [List.mem_singleton.mp ht]
        exact distinctMembers_base

/-- A batch passes the check exactly if the file that is generated for it without the check is well
named. -/
theorem check_iff_wellNamed (batch : Batch) (settings : Settings) :
    ∃ file, sourceFile batch { settings with validate := false } = .ok file ∧
      (batch.check = .ok () ↔ file.WellNamed) := by
  refine ⟨generatedFile batch settings, sourceFile_eq (Or.inl rfl), ?_⟩
  rw [Batch.check_eq_ok_iff]
  exact ⟨fun h => wellNamed_of_legal h settings, legal_of_wellNamed⟩

end Phrasebook
