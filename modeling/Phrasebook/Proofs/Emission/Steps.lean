/-
# Phrasebook.Proofs.Emission.Steps -- what a list of steps builds, in any order

Steps can be run in any order and more than once.  What they have made of a file is a matter of the
steps that have run, whatever is still to come: `BuiltBy` says it, and every step keeps it.  Opening
the class again drops its members, so that only the steps after the last opening count for them.

A run fails in one way only, at a step that adds members before the class has been opened.
-/
import Phrasebook.Proofs.Emission.File
import Phrasebook.Proofs.Emission.Listing

namespace Phrasebook

open Java (Node SourceFile)

/-! ## Steps that add members -/

namespace Step

/-- A step that has members to add. -/
def NeedsClass (phrases : List Phrase) : Step → Prop
  | factories | builders => phrases ≠ []
  | baseClass | hiddenConstructor => True
  | header | imports | openClass => False

instance (phrases : List Phrase) : DecidablePred (NeedsClass phrases)
  | factories | builders => inferInstanceAs (Decidable (phrases ≠ []))
  | baseClass | hiddenConstructor => inferInstanceAs (Decidable True)
  | header | imports | openClass => inferInstanceAs (Decidable False)

/-- A step needs the class exactly if it has members to add. -/
theorem needsClass_iff (phrases : List Phrase) (step : Step) :
    step.NeedsClass phrases ↔ step.members phrases ≠ [] := by
  cases step <;> simp [NeedsClass, members]

end Step

/-- One of the steps before the first that opens the class needs it. -/
def Premature (phrases : List Phrase) (steps : List Step) : Prop :=
  ∃ step ∈ steps.takeWhile (· ≠ .openClass), step.NeedsClass phrases

instance (phrases : List Phrase) : DecidablePred (Premature phrases) := fun _ =>
  inferInstanceAs (Decidable (∃ _ ∈ _, _))

theorem premature_cons {phrases : List Phrase} {step : Step} {steps : List Step} :
    Premature phrases (step :: steps) ↔
      step.NeedsClass phrases ∨ step ≠ .openClass ∧ Premature phrases steps := by
  by_cases h : step = .openClass
  · simp [Premature, h, Step.NeedsClass]
  · simp [Premature, h]

theorem addMembers_eq_error_iff {file : SourceFile} {members : List Node} {fault : SourceFault} :
    addMembers file members = .error fault ↔
      fault = .classNotOpened ∧ file.type = none ∧ members ≠ [] := by
  cases members with
  | nil => simp [addMembers]
  | cons m ms => cases h : file.type <;> simp [addMembers, h, eq_comm]

/-- The other steps only add members. -/
theorem runStep_members {settings : Settings} {phrases : List Phrase} {file : SourceFile}
    {step : Step} (h : step ∉ [Step.header, .imports, .openClass]) :
    runStep settings phrases file step = addMembers file (step.members phrases) := by
  cases step with
  | header | imports | openClass => exact absurd (by decide) h
  | factories | builders | baseClass | hiddenConstructor => rfl

/-- A step fails exactly if it needs the class and the class has not been opened. -/
theorem runStep_eq_error_iff {settings : Settings} {phrases : List Phrase} {file : SourceFile}
    {step : Step} {fault : SourceFault} :
    runStep settings phrases file step = .error fault ↔
      fault = .classNotOpened ∧ file.type = none ∧ step.NeedsClass phrases := by
  rw [Step.needsClass_iff]
  cases step with
  | header | imports | openClass => simp [runStep, Step.members]
  | factories | builders | baseClass | hiddenConstructor =>
    rw [runStep_members, addMembers_eq_error_iff]
    decide

/-! ## What steps have built -/

/-- What steps that have run have made of the file of a batch. -/
structure BuiltBy (batch : Batch) (settings : Settings) (steps : List Step) (file : SourceFile) :
    Prop where
  package : file.package = batch.package
  /-- The header is set by any of the steps for it. -/
  header : file.header = if Step.header ∈ steps then some settings.header else none
  /-- The imports are there once for each of the steps for them. -/
  imports : file.imports = (List.replicate (steps.count .imports) settings.imports).flatten
  unopened : file.type = none ↔ Step.openClass ∉ steps
  /-- The class has the members of the steps after the one that opened it last. -/
  opened : ∀ before after, steps = before ++ .openClass :: after → Step.openClass ∉ after →
    file.type = some
      { emptyPhraseClass with members := after.flatMap (Step.members batch.phrases) }

variable {batch : Batch} {settings : Settings}

/-- The file before any step. -/
theorem builtBy_nil : BuiltBy batch settings [] { package := batch.package } where
  package := rfl
  header := rfl
  imports := rfl
  unopened := by simp
  opened := by simp

/-- Steps with another one behind them that does not open the class are opened where they were. -/
theorem eq_append_of_concat {steps before after : List Step} {step : Step}
    (hne : step ≠ .openClass) (h : steps ++ [step] = before ++ .openClass :: after) :
    ∃ after', after = after' ++ [step] ∧ steps = before ++ .openClass :: after' := by
  rcases List.eq_nil_or_concat after with rfl | ⟨after', last, rfl⟩
  · exact absurd (List.append_singleton_inj.mp h).2 hne
  · rw [List.concat_eq_append, ← List.cons_append, ← List.append_assoc] at h
    obtain ⟨hsteps, rfl⟩ := List.append_singleton_inj.mp h
    exact ⟨after', List.concat_eq_append, hsteps⟩

/-- Members are added to the class where it was opened last. -/
theorem BuiltBy.opened_concat {steps before after : List Step} {file : SourceFile} {step : Step}
    (h : BuiltBy batch settings steps file) (hne : step ≠ .openClass)
    (heq : steps ++ [step] = before ++ .openClass :: after) (hafter : Step.openClass ∉ after) :
    file.type.map (fun type =>
        { type with members := type.members ++ step.members batch.phrases }) =
      some { emptyPhraseClass with members := after.flatMap (Step.members batch.phrases) } := by
  obtain ⟨after', rfl, hsteps⟩ := eq_append_of_concat hne heq
  have hafter' : Step.openClass ∉ after' := fun hm => hafter (List.mem_append_left _ hm)
  rw [h.opened before after' hsteps hafter', List.flatMap_append, List.flatMap_singleton]
  rfl

/-- Adding members touches nothing but the type, and the type only if it is there. -/
theorem addMembers_eq_ok {file file' : SourceFile} {members : List Node}
    (h : addMembers file members = .ok file') :
    file' = { file with type := file.type.map fun type =>
      { type with members := type.members ++ members } } := by
  cases htype : file.type with
  | none =>
    cases members with
    | nil =>
      obtain rfl := Except.ok.inj h
      rw [Option.map_none, ← htype]
    | cons m ms => simp [addMembers, htype] at h
  | some type =>
    rw [addMembers_open htype] at h
    exact (Except.ok.inj h).symm

/-- Every step keeps the account of what has been built. -/
theorem BuiltBy.step {steps : List Step} {file file' : SourceFile} {step : Step}
    (h : BuiltBy batch settings steps file)
    (hrun : runStep settings batch.phrases file step = .ok file') :
    BuiltBy batch settings (steps ++ [step]) file' := by
  cases step with
  | header =>
    obtain rfl := Except.ok.inj hrun
    refine ⟨h.package, by simp, by simp [h.imports], by simp [h.unopened], ?_⟩
    intro before after heq hafter
    rw [← h.opened_concat (by decide) heq hafter]
    simp [Step.members]
  | imports =>
    obtain rfl := Except.ok.inj hrun
    refine ⟨h.package, by simp [h.header], ?_, by simp [h.unopened], ?_⟩
    · simp [h.imports, List.replicate_succ']
    · intro before after heq hafter
      rw [← h.opened_concat (by decide) heq hafter]
      simp [Step.members]
  | openClass =>
    obtain rfl := Except.ok.inj hrun
    refine ⟨h.package, by simp [h.header], by simp [h.imports], by simp, ?_⟩
    intro before after heq hafter
    -- The last of these steps opens the class, so that none can come after it.
    rcases List.eq_nil_or_concat after with rfl | ⟨after', last, rfl⟩
    · rfl
    · rw [List.concat_eq_append, ← List.cons_append, ← List.append_assoc] at heq
      obtain ⟨-, rfl⟩ := List.append_singleton_inj.mp heq
      simp at hafter
  | factories | builders | baseClass | hiddenConstructor =>
    rw [runStep_members (by decide)] at hrun
    obtain rfl := addMembers_eq_ok hrun
    refine ⟨h.package, by simp [h.header], by simp [h.imports], by simp [h.unopened], ?_⟩
    exact fun before after heq hafter => h.opened_concat (by decide) heq hafter

/-! ## Runs -/

/-- A run that succeeds builds what its steps build, one after the other. -/
theorem BuiltBy.run {done rest : List Step} {file file' : SourceFile}
    (h : BuiltBy batch settings done file)
    (hrun : rest.foldlM (runStep settings batch.phrases) file = .ok file') :
    BuiltBy batch settings (done ++ rest) file' := by
  induction rest generalizing done file with
  | nil =>
    obtain rfl := Except.ok.inj hrun
    rwa [List.append_nil]
  | cons step rest ih =>
    rw [List.foldlM_cons] at hrun
    obtain ⟨next, hstep, hrest⟩ := bind_eq_ok_iff.mp hrun
    have htail := ih (h.step hstep) hrest
    rwa [List.append_assoc] at htail

/-- A run fails exactly if one of its steps needs the class before it has been opened. -/
theorem BuiltBy.run_eq_error_iff {done rest : List Step} {file : SourceFile} {fault : SourceFault}
    (h : BuiltBy batch settings done file) :
    rest.foldlM (runStep settings batch.phrases) file = .error fault ↔
      fault = .classNotOpened ∧ Step.openClass ∉ done ∧ Premature batch.phrases rest := by
  induction rest generalizing done file with
  | nil => simp [Premature, pure, Except.pure]
  | cons step rest ih =>
    rw [List.foldlM_cons, bind_eq_error_iff, runStep_eq_error_iff, h.unopened, premature_cons]
    constructor
    · rintro (⟨rfl, hdone, hneeds⟩ | ⟨next, hstep, hrest⟩)
      · exact ⟨rfl, hdone, Or.inl hneeds⟩
      · obtain ⟨rfl, hdone, hpremature⟩ := (ih (h.step hstep)).mp hrest
        simp only [List.mem_append, List.mem_singleton, not_or] at hdone
        exact ⟨rfl, hdone.1, Or.inr ⟨fun heq => hdone.2 heq.symm, hpremature⟩⟩
    · rintro ⟨rfl, hdone, hpremature⟩
      cases hstep : runStep settings batch.phrases file step with
      | error fault => exact Or.inl ⟨rfl, hdone, (runStep_eq_error_iff.mp hstep).2.2⟩
      | ok next =>
        rcases hpremature with hneeds | ⟨hne, hpremature⟩
        · exact Or.inl ⟨rfl, hdone, hneeds⟩
        · refine Or.inr ⟨next, rfl, (ih (h.step hstep)).mpr ⟨rfl, ?_, hpremature⟩⟩
          simp [hdone, hne.symm]

/-- With names that are unchecked or accepted, any list of steps fails exactly if a step needs the
class before it has been opened, and builds its file otherwise. -/
theorem buildFile_steps (h : settings.validate = false ∨ batch.check = .ok ())
    (steps : List Step) :
    (∀ fault, buildFile batch settings steps = .error fault ↔
      fault = .classNotOpened ∧ Premature batch.phrases steps) ∧
    (¬ Premature batch.phrases steps →
      ∃ file, buildFile batch settings steps = .ok file ∧ BuiltBy batch settings steps file) := by
  have hbuild : buildFile batch settings steps =
      steps.foldlM (runStep settings batch.phrases) { package := batch.package } :=
    buildFile_eq h steps
  have hfault : ∀ fault, buildFile batch settings steps = .error fault ↔
      fault = .classNotOpened ∧ Premature batch.phrases steps := by
    intro fault
    rw [hbuild, builtBy_nil.run_eq_error_iff]
    simp
  refine ⟨hfault, fun hpremature => ?_⟩
  cases hrun : buildFile batch settings steps with
  | error fault => exact absurd ((hfault fault).mp hrun).2 hpremature
  | ok file => exact ⟨file, rfl, builtBy_nil.run (hbuild ▸ hrun)⟩

/-- Steps that open the class twice. -/
def reopening : List Step :=
  [.imports, .openClass, .factories, .header, .openClass, .baseClass, .imports, .builders]

/-- The factory goes with the first class, and the imports are there twice. -/
theorem buildFile_reopening :
    (⟨"app.strings", [welcome]⟩ : Batch).check = .ok () ∧ ¬ Premature [welcome] reopening ∧
      ∃ file, buildFile ⟨"app.strings", [welcome]⟩ { } reopening = .ok file ∧
        file.type.map (·.members) =
          some [basePhraseClass.toNode, (builderClass welcome).toNode] ∧
        file.imports = ({ } : Settings).imports ++ ({ } : Settings).imports := by
  have hcheck : (⟨"app.strings", [welcome]⟩ : Batch).check = .ok () := rfl
  have hpremature : ¬ Premature [welcome] reopening := by decide
  obtain ⟨file, hrun, hbuilt⟩ :=
    (@buildFile_steps ⟨"app.strings", [welcome]⟩ { } (Or.inr hcheck) reopening).2 hpremature
  refine ⟨hcheck, hpremature, file, hrun, ?_, hbuilt.imports⟩
  rw [hbuilt.opened [.imports, .openClass, .factories, .header] [.baseClass, .imports, .builders]
    rfl (by decide)]
  rfl

end Phrasebook
