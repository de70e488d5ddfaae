/-
# Phrasebook.Proofs.Workspace.Routes -- two ways to one settings file

A run uses the settings file that it is given, and otherwise looks for one in the working directory.
The one keeps the path as it is given, the other resolves it first.  If both ways lead to one file
the same settings are read, and a file that is refused is refused in the same way.

What they do not agree on is where the file is.  A directory in the settings is taken from the place
of the file, which for a resolved path is where its links lead (`run_outputRoot_ofPlace`) and for a
given one where the path is taken from (`run_outputRoot_local`).
-/
import Phrasebook.Proofs.FileTree.Resolving
import Phrasebook.Proofs.Workspace.Loading

namespace Phrasebook

/-- A path that is not absolute is its parts. -/
theorem Path.eq_relative {path : Path} (h : ¬ path.isAbsolute = true) :
    path = ⟨.relative, path.parts⟩ := by
  obtain ⟨anchor, parts⟩ := path
  cases anchor with
  | relative => rfl
  | root => exact absurd rfl h
  | doubleRoot => exact absurd rfl h

/-! ## Outcomes that differ in messages only -/

/-- The crash that a fault is, unless it is the user's. -/
def Fault.crash? : Fault → Option Crash
  | .user _ => none
  | .crash c => some c

/-- Two outcomes are the same, or both are faults of the user, or the same crash. -/
def Agree {α : Type} (outcome outcome' : Except Fault α) : Prop :=
  outcome.mapError Fault.crash? = outcome'.mapError Fault.crash?

namespace Agree

variable {α β : Type} {outcome outcome' : Except Fault α}

theorem refl (outcome : Except Fault α) : Agree outcome outcome := rfl

theorem error {fault fault' : Fault} (h : fault.crash? = fault'.crash?) :
    Agree (.error fault : Except Fault α) (.error fault') := congrArg Except.error h

theorem ok_iff (h : Agree outcome outcome') (a : α) : outcome = .ok a ↔ outcome' = .ok a := by
  rw [← mapError_eq_ok_iff (f := Fault.crash?), h, mapError_eq_ok_iff]

/-- What is made of a result agrees if the faults match. -/
theorem of_mapError {ε : Type} {f g : ε → Fault} (result : Except ε α)
    (h : ∀ e, (f e).crash? = (g e).crash?) : Agree (result.mapError f) (result.mapError g) := by
  cases result with
  | ok a => exact rfl
  | error e => exact error (h e)

/-- Outcomes agree if they go on in agreement from the same value. -/
theorem bind (h : Agree outcome outcome') {next next' : α → Except Fault β}
    (hnext : ∀ a, outcome = .ok a → Agree (next a) (next' a)) :
    Agree (outcome >>= next) (outcome' >>= next') := by
  cases outcome with
  | ok a =>
    obtain rfl := (h.ok_iff a).mp rfl
    exact hnext a rfl
  | error fault =>
    cases outcome' with
    | ok b => cases h
    | error fault' => exact error (Except.error.inj h)

end Agree

namespace Workspace

variable {w : World} {path other : Path} {place : Place} {content : ByteArray}

/-! ## One file, two paths -/

/-- However a file is reported that cannot be opened, it is the user's fault or not. -/
theorem crash?_openingFault (opening opening' : FileError → InputFlaw)
    (report report' : InputFlaw → UserFault) (e : FileError) :
    (openingFault opening report e).crash? = (openingFault opening' report' e).crash? := by
  unfold openingFault
  split <;> rfl

/-- However a fault in the content of a file is reported, it is the user's or not. -/
theorem crash?_ofContent (report report' : InputFlaw → UserFault) (flaw : ContentFlaw) :
    (Fault.ofContent report flaw).crash? = (Fault.ofContent report' flaw).crash? := by
  unfold Fault.ofContent
  split <;> rfl

theorem crash?_documentFault (report report' : InputFlaw → UserFault) (f : Yaml.Fault) :
    (documentFault report f).crash? = (documentFault report' f).crash? := by
  cases f <;> rfl

/-- The bytes of a file are the same document, however a fault in it is reported. -/
theorem documented_agree (load : Text → Except Yaml.Fault Value) (bytes : ByteArray)
    (report report' : InputFlaw → UserFault) :
    Agree (documented load report bytes) (documented load report' bytes) := by
  unfold documented
  cases Text.decode? bytes with
  | none => exact Agree.refl _
  | some text => exact .of_mapError _ (crash?_documentFault report report')

/-- Two paths to one file give the same settings, or faults that match. -/
theorem loadSettings_agree
    (h : w.tree.arrive .target w.directory path = .ok (.present place (.file content)))
    (h' : w.tree.arrive .target w.directory other = .ok (.present place (.file content))) :
    Agree (World.run (loadSettings (some path)) w).1 (World.run (loadSettings (some other)) w).1 := by
  have hread : w.read other = w.read path := Host.read_congr (h'.trans h.symm)
  rw [run_loadSettings_of_ok (FileTree.status_eq_ok_iff.mpr ⟨place, h⟩),
    run_loadSettings_of_ok (FileTree.status_eq_ok_iff.mpr ⟨place, h'⟩), hread]
  refine (Agree.of_mapError _ (crash?_openingFault _ _ _ _)).bind fun bytes _ => ?_
  refine (documented_agree w.host.load bytes _ _).bind fun value _ => ?_
  exact .of_mapError _ (crash?_ofContent _ _)

/-- A file that is given or found has its settings loaded. -/
theorem run_ifFile {α : Type} {load skip : Task (StateM World) α}
    (h : w.tree.status w.directory path = .ok (.file content)) :
    World.run (kind? path >>= fun kind => if kind = some .file then load else skip) w =
      World.run load w := run_kind?_of_ok h

/-- Settings that are loaded are handed on with their file. -/
theorem run_sourced (file : Option Path) (w : World) :
    (World.run (loadSettings file >>= fun settings =>
        (pure (settings, file) : Task (StateM World) _)) w).1 =
      (fun settings => (settings, file)) <$> (World.run (loadSettings file) w).1 := by
  rw [World.run_bind]
  rcases World.run (loadSettings file) w with ⟨outcome, w'⟩
  cases outcome <;> rfl

/-- A given file is used with its path. -/
theorem run_settingsFor_file (h : w.tree.status w.directory path = .ok (.file content)) :
    (World.run (settingsFor (some path)) w).1 =
      (fun settings => (settings, some path)) <$> (World.run (loadSettings (some path)) w).1 := by
  rw [settingsFor_some, run_ifFile h, run_sourced]

/-- A file that is looked for is used with its resolved path. -/
theorem run_settingsFor_found
    (hresolve : w.tree.resolve w.directory (soughtPath w.directory) = .ok path)
    (h : w.tree.status w.directory path = .ok (.file content)) :
    (World.run (settingsFor none) w).1 =
      (fun settings => (settings, some path)) <$> (World.run (loadSettings (some path)) w).1 := by
  rw [run_settingsFor_none, hresolve]
  simp only
  rw [settingsFound_eq, run_ifFile h, run_sourced]

/-! ## The file of the working directory -/

/-- The settings file of the working directory, as it is named in that directory. -/
def localSettings : Path := Path.ofText settingsFileName

theorem isName_settingsFileName : IsName settingsFileName := by decide

/-- Where the settings file of the working directory is a file, its links lead to a place, and there
it is found.  It can be found there only if the paths of that place and of the links can be handed over. -/
theorem found_of_status (hsound : w.Sound)
    (hfile : w.tree.status w.directory localSettings = .ok (.file content))
    (haddress : w.tree.Addressable w.directory [settingsFileName]) :
    ∃ place, w.tree.Leads w.directory [settingsFileName] place ∧
      w.tree.at? place = some (.file content) ∧
      w.tree.resolve w.directory (soughtPath w.directory) = .ok (Path.ofPlace place) ∧
      w.tree.arrive .target w.directory localSettings = .ok (.present place (.file content)) ∧
      w.tree.arrive .target w.directory (Path.ofPlace place) =
        .ok (.present place (.file content)) := by
  obtain ⟨place, harrive⟩ := FileTree.status_eq_ok_iff.mp hfile
  obtain ⟨-, hwalks⟩ := FileTree.arrive_eq_ok_iff.mp harrive
  have hleads : w.tree.Leads w.directory [settingsFileName] place := hwalks.leads (by decide)
  -- what stands under that name is a link on the way, or the end of it
  have hsought : pathError? (Path.ofPlace (w.directory ++ [settingsFileName])).text = none := by
    by_cases hlink : ∃ destination,
        w.tree.at? (w.directory ++ [settingsFileName]) = some (.link destination)
    · obtain ⟨destination, hat⟩ := hlink
      exact haddress.links _ (.there isName_settingsFileName rfl hat)
    · exact haddress.goal _ (.name isName_settingsFileName
        (fun destination hat => hlink ⟨destination, hat⟩) (.done _))
  obtain ⟨hresolve, hfound⟩ := FileTree.resolve_of_walks hsound.tree hsound.directory hwalks
    haddress.links hsought (haddress.goal place hleads)
  exact ⟨place, hleads, hwalks.at?_present (by simp), hresolve, harrive, hfound⟩

/-! ## The output root of the settings -/

/-- The output root of settings whose relative directory is taken from a place. -/
def rootFrom (tree : FileTree) (base : Place) (settings : Settings) : Except Fault Path :=
  let output := Path.ofText settings.outputDir
  if output.isAbsolute then .ok output else (tree.resolve base output).mapError Fault.ofResolve

/-- The directory in the settings of a file is taken from the place above that file. -/
theorem run_outputRoot_file {settings : Settings} {file : Path} :
    (World.run (outputRoot settings (some file) none) w).1 =
      let output := Path.ofText settings.outputDir
      if output.isAbsolute then .ok output
      else (w.tree.resolve w.directory ⟨file.anchor, file.parts.dropLast ++ output.parts⟩).mapError
        Fault.ofResolve := by
  unfold outputRoot
  simp only
  by_cases habsolute : (Path.ofText settings.outputDir).isAbsolute = true
  · rw [if_pos habsolute, if_pos habsolute]
    rfl
  · rw [if_neg habsolute, if_neg habsolute, pure_bind, run_resolved]
    have happend : file.parent ++ Path.ofText settings.outputDir =
        ⟨file.anchor, file.parts.dropLast ++ (Path.ofText settings.outputDir).parts⟩ :=
      if_neg habsolute
    rw [happend]

/-- For a place it is taken from the directory in which that is. -/
theorem run_outputRoot_ofPlace (hsound : w.tree.Sound) {place : Place}
    (hat : w.tree.at? place = some (.file content))
    (herror : pathError? (Path.ofPlace place).text = none) (settings : Settings) :
    (World.run (outputRoot settings (some (Path.ofPlace place)) none) w).1 =
      rootFrom w.tree place.dropLast settings := by
  have hdirectory : w.tree.at? place.dropLast = some .directory := by
    rcases List.eq_nil_or_concat' place with rfl | ⟨above, name, rfl⟩
    · cases hat
    · rw [List.dropLast_concat]
      exact hsound.parents above name (by simp [hat])
  have habove := Path.pathError?_ofPlace (List.dropLast_prefix place) herror
  have hresolve := fun parts => FileTree.resolve_ofPlace hsound hdirectory habove parts w.directory
  rw [run_outputRoot_file]
  unfold rootFrom
  simp only
  split
  · rfl
  · next habsolute =>
    rw [Path.eq_relative habsolute]
    exact congrArg _ (hresolve _)

/-- For a file that is named in the working directory it is taken from there. -/
theorem run_outputRoot_local (settings : Settings) :
    (World.run (outputRoot settings (some localSettings) none) w).1 =
      rootFrom w.tree w.directory settings := by
  rw [run_outputRoot_file]
  unfold rootFrom
  simp only
  split
  · rfl
  · next habsolute =>
    rw [Path.eq_relative habsolute]
    rfl

end Workspace

end Phrasebook
