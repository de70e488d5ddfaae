/-
# Phrasebook.Proofs.Workspace.Asking -- tasks that only ask

Reading settings and phrase files changes nothing in a world but its messages, and what comes out is
fixed by a few answers of the host and its file tree: what a path leads to, the content of a file, and
the value of a document.  `Asks` says both at once, for a question put to them.  Such a task has the
same outcome in every world that gives the same answer, and it leaves each of them as it was.

Only the place of a settings file that nobody names is found out by a question of another kind, the
path without links, and what is asked next depends on it.
-/
import Mathlib.Tactic.Choose
import Phrasebook.Command
import Phrasebook.Proofs.World

namespace Phrasebook.Workspace

/-- The task changes messages alone, and its outcome is fixed by the answer to a question. -/
def Asks {σ α : Type} (question : Host → FileTree → Place → σ) (task : Task (StateM World) α) :
    Prop :=
  ∃ outcome : σ → Except Fault α, ∀ w : World, ∃ messages,
    World.run task w = (outcome (question w.host w.tree w.directory), { w with messages })

namespace Asks

variable {σ α β : Type} {question : Host → FileTree → Place → σ} {task : Task (StateM World) α}

theorem pure (a : α) : Asks question (Pure.pure a : Task (StateM World) α) :=
  ⟨fun _ => .ok a, fun w => ⟨w.messages, rfl⟩⟩

theorem throw (fault : Fault) :
    Asks question (MonadExcept.throw fault : Task (StateM World) α) :=
  ⟨fun _ => .error fault, fun w => ⟨w.messages, rfl⟩⟩

theorem tell (level : Level) (text : Text) : Asks question (Workspace.tell level text) :=
  ⟨fun _ => .ok (), fun _ => ⟨_, rfl⟩⟩

theorem ask (part : σ → α) :
    Asks question (liftM (World.ask fun h t d => part (question h t d)) : Task (StateM World) α) :=
  ⟨fun answer => .ok (part answer), fun w => ⟨w.messages, rfl⟩⟩

/-- Tasks that ask a question one after the other ask that question. -/
theorem bind {next : α → Task (StateM World) β} (h : Asks question task)
    (hnext : ∀ a, Asks question (next a)) : Asks question (task >>= next) := by
  obtain ⟨outcome, hrun⟩ := h
  choose outcomes hruns using hnext
  refine ⟨fun answer => (outcome answer).bind fun a => outcomes a answer, fun w => ?_⟩
  obtain ⟨messages, hw⟩ := hrun w
  rw [World.run_bind, hw]
  cases hout : outcome (question w.host w.tree w.directory) with
  | error fault => exact ⟨messages, by simp only [hout]; rfl⟩
  | ok a =>
    obtain ⟨messages', hw'⟩ := hruns a { w with messages }
    exact ⟨messages', by simp only [hout]; exact hw'⟩

/-- Where the question has the same answer the task has the same outcome, and the world stays. -/
theorem agree (h : Asks question task) {w w' : World}
    (heq : question w'.host w'.tree w'.directory = question w.host w.tree w.directory) :
    ∃ messages, World.run task w' = ((World.run task w).1, { w' with messages }) := by
  obtain ⟨outcome, hrun⟩ := h
  obtain ⟨messages, hw⟩ := hrun w
  obtain ⟨messages', hw'⟩ := hrun w'
  exact ⟨messages', by rw [hw', hw, heq]⟩

theorem quiet (h : Asks question task) (w : World) :
    ∃ messages, World.run task w = ((World.run task w).1, { w with messages }) := h.agree rfl

theorem staying (h : Asks question task) : World.Staying task := by
  intro w
  obtain ⟨messages, hquiet⟩ := h.quiet w
  rw [hquiet]
  exact ⟨rfl, rfl⟩

end Asks

/-- Everything that can be asked. -/
def everything (host : Host) (tree : FileTree) (directory : Place) : Host × FileTree × Place :=
  (host, tree, directory)

/-- Whoever asks a question asks for everything. -/
theorem Asks.all {σ α : Type} {question : Host → FileTree → Place → σ}
    {task : Task (StateM World) α} (h : Asks question task) : Asks everything task := by
  obtain ⟨outcome, hrun⟩ := h
  exact ⟨fun (host, tree, directory) => outcome (question host tree directory), hrun⟩

/-- What is asked about a path: what it leads to, what stands in that file, and how documents are
read. -/
def about (path : Path) (host : Host) (tree : FileTree) (directory : Place) :
    Except FileError FileKind × Except FileError ByteArray × (Text → Except Yaml.Fault Value) :=
  ((tree.status directory path).map World.kindOf, host.read tree directory path, host.load)

/-! ## Documents -/

section

variable {path : Path}

theorem asks_parse (text : Text) :
    Asks (about path) (liftM (Workspace.parse (m := StateM World) text)) :=
  @Asks.ask _ _ (about path) fun answer => answer.2.2 text

theorem asks_document (report : InputFlaw → UserFault) (bytes : ByteArray) :
    Asks (about path) (document (m := StateM World) report bytes) := by
  unfold document
  cases Text.decode? bytes with
  | none => exact .throw _
  | some text =>
    refine (asks_parse _).bind fun answer => ?_
    split
    · exact .pure _
    · exact .throw _
    · exact .throw _

/-- A document task asks what its parts ask. -/
theorem asks_loadWith {α : Type} {read : Task (StateM World) ByteArray}
    {make : Value → Task (StateM World) α} (hread : Asks (about path) read)
    (report : InputFlaw → UserFault) (hmake : ∀ value, Asks (about path) (make value)) :
    Asks (about path) (loadWith read report make) :=
  hread.bind fun bytes => (asks_document report bytes).bind hmake

end

section

variable {σ : Type} {question : Host → FileTree → Place → σ}

/-- Telling what has been built asks nothing. -/
theorem asks_tellBuilt (records : List Built) : Asks question (tellBuilt records) := by
  induction records with
  | nil => exact .pure ()
  | cons record records ih => exact (Asks.tell .debug _).bind fun _ => ih

theorem asks_batchesOf (path : Path) (value : Value) : Asks question (batchesOf path value) := by
  refine (asks_tellBuilt _).bind fun _ => ?_
  cases PhraseFile.read value with
  | error flaw => exact .throw _
  | ok batches => exact (Asks.tell .debug _).bind fun _ => .pure batches

theorem asks_settingsOf (path : Path) (value : Value) : Asks question (settingsOf path value) := by
  refine (asks_tellBuilt _).bind fun _ => ?_
  cases Settings.ofValue value with
  | error flaw => exact .throw _
  | ok settings => exact (Asks.tell .debug _).bind fun _ => .pure settings

end

/-! ## Files -/

variable (path : Path)

theorem asks_status :
    Asks (about path) (liftM (Workspace.status (m := StateM World) path)) := Asks.ask Prod.fst

theorem asks_read :
    Asks (about path) (liftM (Workspace.read (m := StateM World) path)) :=
  @Asks.ask _ _ (about path) fun answer => answer.2.1

theorem asks_kind? : Asks (about path) (kind? path) := by
  refine (asks_status path).bind fun answer => ?_
  cases answer with
  | ok kind => exact .pure _
  | error e =>
    simp only
    split
    · exact .pure _
    · exact .throw _

theorem asks_readPhraseFile : Asks (about path) (readPhraseFile path) := by
  refine (asks_read path).bind fun answer => ?_
  split
  · exact .pure _
  · exact .throw _
  · split
    · exact .throw _
    · exact .throw _

/-- The batches of a phrase file are fixed by its content. -/
theorem asks_loadPhrases : Asks (about path) (loadPhrases path) :=
  asks_loadWith (asks_readPhraseFile path) _ (asks_batchesOf path)

theorem asks_readSettingsFile : Asks (about path) (readSettingsFile path) := by
  refine (asks_read path).bind fun answer => ?_
  split
  · exact .pure _
  · split
    · exact .throw _
    · exact .throw _

/-! ## Settings -/

/-- Settings of a named file are the default ones if nothing is there. -/
theorem loadSettings_some :
    loadSettings (m := StateM World) (some path) = kind? path >>= fun kind =>
      if kind.isNone then do
        tell .debug ("No settings file at " ++ path.text ++ ", using defaults")
        return { }
      else loadWith (readSettingsFile path) (.settings (some path)) (settingsOf path) := by
  unfold loadSettings settingsFile?
  rw [bind_assoc]
  refine congrArg (kind? path >>= ·) (funext fun kind => ?_)
  cases kind <;> rfl

theorem asks_loadSettings : Asks (about path) (loadSettings (some path)) := by
  rw [loadSettings_some]
  refine (asks_kind? path).bind fun kind => ?_
  split
  · exact (Asks.tell .debug _).bind fun _ => .pure _
  · exact asks_loadWith (asks_readSettingsFile path) _ (asks_settingsOf path)

/-- The settings of a file that is given are fixed by what is there. -/
theorem asks_settingsFor : Asks (about path) (settingsFor (some path)) := by
  refine (asks_kind? path).bind fun kind => ?_
  split
  · rw [pure_bind]
    exact (asks_loadSettings path).bind fun _ => .pure _
  · exact .throw _

/-- The settings of the file that has been looked for. -/
def settingsFound (candidate : Path) : Task (StateM World) (Settings × Option Path) := do
  let file := if (← kind? candidate) = some .file then some candidate else none
  return (← loadSettings file, file)

theorem run_resolved (w : World) :
    World.run (resolved path) w =
      ((w.tree.resolve w.directory path).mapError Fault.ofResolve, w) := by
  unfold resolved
  rw [World.run_bind, World.run_liftM]
  have hanswer : Workspace.resolve (m := StateM World) path w =
      (w.tree.resolve w.directory path, w) := rfl
  rw [hanswer]
  cases w.tree.resolve w.directory path with
  | ok goal => rfl
  | error fault => rfl

/-- The path at which settings are looked for if no file is given. -/
def soughtPath (directory : Place) : Path := Path.child ⟨.root, directory⟩ settingsFileName

/-- If no file is given, it is looked for in the working directory, all links followed. -/
theorem run_settingsFor_none (w : World) :
    World.run (settingsFor none) w =
      match w.tree.resolve w.directory (soughtPath w.directory) with
      | .ok candidate => World.run (settingsFound candidate) w
      | .error fault => (.error (Fault.ofResolve fault), w) := by
  have hrun : World.run (settingsFor none) w =
      World.run (resolved (soughtPath w.directory) >>= settingsFound) w := by
    show World.run (findSettings ⟨.root, w.directory⟩ >>= _) w = _
    unfold findSettings settingsFound soughtPath
    simp only [bind_assoc, pure_bind]
  rw [hrun, World.run_bind, run_resolved]
  cases w.tree.resolve w.directory (soughtPath w.directory) with
  | ok candidate => rfl
  | error fault => rfl

/-- Where no file is found the settings are the default ones. -/
theorem asks_loadSettings_none {σ : Type} {question : Host → FileTree → Place → σ} :
    Asks question (loadSettings (m := StateM World) none) :=
  ⟨fun _ => .ok { }, fun _ => ⟨_, rfl⟩⟩

theorem asks_settingsFound : Asks (about path) (settingsFound path) := by
  refine (asks_kind? path).bind fun kind => ?_
  simp only
  split
  · exact (asks_loadSettings path).bind fun _ => .pure _
  · exact asks_loadSettings_none.bind fun _ => .pure _

theorem asks_directory : Asks everything (liftM (Workspace.directory (m := StateM World))) :=
  @Asks.ask _ Path everything fun answer => ⟨.root, answer.2.2⟩

theorem asks_resolved : Asks everything (resolved (m := StateM World) path) := by
  refine (@Asks.ask _ (Except ResolveFault Path) everything fun answer =>
    answer.2.1.resolve answer.2.2 path).bind fun answer => ?_
  cases answer with
  | ok path => exact .pure path
  | error fault => exact .throw _

theorem asks_findSettings (directory : Path) :
    Asks everything (findSettings (m := StateM World) directory) := by
  refine (asks_resolved _).bind fun candidate => ?_
  exact (asks_kind? candidate).all.bind fun kind => .pure _

/-- Finding out the settings changes nothing, whether a file is given or not. -/
theorem asks_settingsFor_any (config : Option Path) :
    Asks everything (settingsFor (m := StateM World) config) := by
  cases config with
  | some path => exact (asks_settingsFor path).all
  | none =>
    refine asks_directory.bind fun directory => (asks_findSettings directory).bind fun file => ?_
    refine Asks.bind ?_ fun settings => .pure _
    cases file with
    | none => exact asks_loadSettings_none
    | some path => exact (asks_loadSettings path).all

/-! ## The output root -/

/-- Finding out the output root changes nothing. -/
theorem asks_outputRoot (settings : Settings) (file output : Option Path) :
    Asks everything (outputRoot (m := StateM World) settings file output) := by
  cases output with
  | some path => exact asks_resolved path
  | none =>
    unfold outputRoot
    simp only
    split
    · exact .pure _
    · cases file with
      | some path => exact asks_resolved _
      | none => exact asks_directory.bind fun base => asks_resolved _

/-- A path without links starts at the root. -/
theorem isAbsolute_of_resolve {tree : FileTree} {directory : Place} {goal : Path}
    (h : tree.resolve directory path = .ok goal) : goal.isAbsolute = true := by
  unfold FileTree.resolve at h
  split at h
  · cases h
  · cases h
  · simp only at h
    split at h
    · cases h
    · exact Except.ok.inj h ▸ rfl

/-- An output root starts at the root. -/
theorem isAbsolute_of_outputRoot {settings : Settings} {file output : Option Path} {w : World}
    {root : Path} (h : (World.run (outputRoot settings file output) w).1 = .ok root) :
    root.isAbsolute = true := by
  have hresolved : ∀ path, (World.run (resolved path) w).1 = .ok root →
      root.isAbsolute = true := by
    intro path h
    rw [run_resolved] at h
    cases hgoal : w.tree.resolve w.directory path with
    | error fault =>
      rw [hgoal] at h
      cases h
    | ok goal =>
      rw [hgoal] at h
      obtain rfl := Except.ok.inj h
      exact isAbsolute_of_resolve path hgoal
  cases output with
  | some path => exact hresolved path h
  | none =>
    unfold outputRoot at h
    simp only at h
    split at h
    · next habsolute =>
      obtain rfl := Except.ok.inj h
      exact habsolute
    · cases file with
      | some path => exact hresolved _ h
      | none => exact hresolved _ h

end Phrasebook.Workspace
