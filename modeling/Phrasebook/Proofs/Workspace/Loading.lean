/-
# Phrasebook.Proofs.Workspace.Loading -- which input files are refused, and how

An input file is opened, decoded, read as a document and matched to its schema.  `Refused` lists how
each of these steps fails, and with which fault: it is the one thing that is said about the files,
and reading a phrase file or a settings file fails with a fault exactly if the file is refused with
it.

Not every file that is refused is the user's fault.  Bytes that are no UTF-8 end a command without a
message, and so do a document that the loader gives up for another reason than its form, a name that
cannot be handed to the system, and an unknown key that cannot be written down.  This holds of any
loader: only the values and the faults that it gives occur in what follows.
-/
import Phrasebook.Proofs.Outcome
import Phrasebook.Proofs.Workspace.Again

namespace Phrasebook.Workspace

variable {path : Path} {w : World} {fault : Fault}

/-! ## Input files -/

/-- The answer to opening a file holds a text, and that text is read as a document. -/
def Documents (load : Text → Except Yaml.Fault Value) (answer : Except FileError ByteArray)
    (outcome : Except Yaml.Fault Value) : Prop :=
  ∃ bytes text, answer = .ok bytes ∧ Text.decode? bytes = some text ∧
    load text.withLineFeeds = outcome

/-- The ways in which an input file is refused, with the fault of each of them.  `load` reads
documents, `answer` is what opening the file gives, `opening` what is said if that is an error, and
`accept` the schema. -/
inductive Refused {α : Type} (load : Text → Except Yaml.Fault Value)
    (opening : FileError → InputFlaw) (report : InputFlaw → UserFault)
    (accept : Value → Except ContentFlaw α) (answer : Except FileError ByteArray) : Fault → Prop
  | unreadable {e : FileError} : answer = .error e → e.isFromSystem = true →
      Refused load opening report accept answer (.user (report (opening e)))
  | unaddressed {e : FileError} : answer = .error e → e.isFromSystem = false →
      Refused load opening report accept answer (.crash (.system e))
  | undecodable {bytes : ByteArray} : answer = .ok bytes → Text.decode? bytes = none →
      Refused load opening report accept answer (.crash .undecodable)
  | malformed {problem : Text} : Documents load answer (.error (.malformed problem)) →
      Refused load opening report accept answer (.user (report (.malformed problem)))
  | valueless {f : Yaml.Fault} : Documents load answer (.error f) →
      (∀ problem, f ≠ .malformed problem) →
      Refused load opening report accept answer (.crash (.document f))
  | unmatched {value : Value} {flaw : ContentFlaw} : Documents load answer (.ok value) →
      accept value = .error flaw → flaw.isWritable = true →
      Refused load opening report accept answer (.user (report (.content flaw)))
  | unwritable {value : Value} {flaw : ContentFlaw} : Documents load answer (.ok value) →
      accept value = .error flaw → flaw.isWritable = false →
      Refused load opening report accept answer (.crash .unwritable)

/-- The fault of a file that cannot be opened. -/
def openingFault (opening : FileError → InputFlaw) (report : InputFlaw → UserFault)
    (e : FileError) : Fault :=
  if e.isFromSystem then .user (report (opening e)) else .crash (.system e)

/-- The fault of a document that has no value. -/
def documentFault (report : InputFlaw → UserFault) (f : Yaml.Fault) : Fault :=
  match f with
  | .malformed problem => .user (report (.malformed problem))
  | f => .crash (.document f)

/-- What the bytes of a file come to. -/
def documented (load : Text → Except Yaml.Fault Value) (report : InputFlaw → UserFault)
    (bytes : ByteArray) : Except Fault Value :=
  match Text.decode? bytes with
  | none => .error (.crash .undecodable)
  | some text => (load text.withLineFeeds).mapError (documentFault report)

section

variable {α : Type} {load : Text → Except Yaml.Fault Value} {opening : FileError → InputFlaw}
  {report : InputFlaw → UserFault} {accept : Value → Except ContentFlaw α}
  {answer : Except FileError ByteArray}

theorem run_document (report : InputFlaw → UserFault) (bytes : ByteArray) (w : World) :
    World.run (document report bytes) w = (documented w.host.load report bytes, w) := by
  unfold document documented
  cases Text.decode? bytes with
  | none => rfl
  | some text =>
    simp only
    rw [World.run_bind, World.run_liftM]
    have hanswer : Workspace.parse (m := StateM World) text.withLineFeeds w =
        (w.host.load text.withLineFeeds, w) := rfl
    rw [hanswer]
    cases w.host.load text.withLineFeeds with
    | ok value => rfl
    | error f => cases f <;> rfl

/-- A file is opened, its bytes are made a document, and that is matched to the schema. -/
theorem run_loadWith {read : Task (StateM World) ByteArray} {make : Value → Task (StateM World) α}
    (hread : World.run read w = (answer.mapError (openingFault opening report), w))
    (hmake : ∀ value w, (World.run (make value) w).1 =
      (accept value).mapError (Fault.ofContent report)) :
    (World.run (loadWith read report make) w).1 =
      answer.mapError (openingFault opening report) >>= fun bytes =>
        documented w.host.load report bytes >>= fun value =>
          (accept value).mapError (Fault.ofContent report) := by
  unfold loadWith
  cases answer with
  | error e =>
    rw [World.run_bind, hread]
    rfl
  | ok bytes =>
    rw [World.run_bind_of_ok hread, World.run_bind, run_document]
    show _ = documented w.host.load report bytes >>= _
    cases documented w.host.load report bytes with
    | error f => rfl
    | ok value => exact hmake value w

end

/-- Telling what has been built goes well. -/
theorem run_tellBuilt (records : List Built) (w : World) :
    ∃ messages, World.run (tellBuilt records) w = (.ok (), { w with messages }) := by
  induction records generalizing w with
  | nil => exact ⟨w.messages, rfl⟩
  | cons record records ih => exact ih _

/-! ### What a path leads to -/

section

variable {α : Type} {next : Option FileKind → Task (StateM World) α}

theorem run_kind?_of_ok {entry : Entry} (h : w.tree.status w.directory path = .ok entry) :
    World.run (kind? path >>= next) w = World.run (next (some (World.kindOf entry))) w := by
  rw [World.run_bind, run_kind?, h]

end

/-! ## Phrase files -/

theorem run_readSettingsFile (path : Path) (w : World) :
    World.run (readSettingsFile path) w =
      ((w.read path).mapError (openingFault .unreadable (.settings (some path))), w) := by
  unfold readSettingsFile
  rw [World.run_bind, World.run_liftM]
  have hanswer : Workspace.read (m := StateM World) path w = (w.read path, w) := rfl
  rw [hanswer]
  cases w.read path with
  | ok bytes => rfl
  | error e => cases e <;> rfl

theorem run_settingsOf (path : Path) (value : Value) (w : World) :
    (World.run (settingsOf path value) w).1 =
      (Settings.ofValue value).mapError (Fault.ofContent (.settings (some path))) := by
  obtain ⟨messages, htold⟩ := run_tellBuilt (Settings.builtFrom value) w
  unfold settingsOf
  rw [World.run_bind, htold]
  cases Settings.ofValue value with
  | error flaw => rfl
  | ok settings => rfl

/-- A settings file where something is there is opened, made a document and matched to the schema. -/
theorem run_loadSettings_of_ok {entry : Entry} (h : w.tree.status w.directory path = .ok entry) :
    (World.run (loadSettings (some path)) w).1 =
      (w.read path).mapError (openingFault .unreadable (.settings (some path))) >>= fun bytes =>
        documented w.host.load (.settings (some path)) bytes >>= fun value =>
          (Settings.ofValue value).mapError (Fault.ofContent (.settings (some path))) := by
  rw [loadSettings_some, run_kind?_of_ok h]
  exact run_loadWith (run_readSettingsFile path w) (run_settingsOf path)

/-- A settings file that is given is loaded if it is there. -/
theorem settingsFor_some (path : Path) : settingsFor (m := StateM World) (some path) =
    kind? path >>= fun kind => if kind = some .file then
      loadSettings (some path) >>= fun settings => pure (settings, some path)
    else throw (.user (.settings (some path) .settingsNotFound)) := by
  unfold settingsFor
  congr 1

/-- A settings file that has been looked for is loaded if it is there, and the default settings are
taken if it is not. -/
theorem settingsFound_eq (path : Path) : settingsFound path =
    kind? path >>= fun kind => if kind = some .file then
      loadSettings (some path) >>= fun settings => pure (settings, some path)
    else loadSettings none >>= fun settings => pure (settings, none) := by
  unfold settingsFound
  congr 1
  funext kind
  split <;> rfl

end Phrasebook.Workspace
