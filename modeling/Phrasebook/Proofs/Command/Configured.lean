/-
# Phrasebook.Proofs.Command.Configured -- settings that are found and settings that are named

A generating run that is given no settings file uses that of the working directory.  Named on the
command line, the same file gives the same settings.  From there on the two runs differ in the output
root at most, and if they have one output root they do the same: they leave one tree and end alike,
except that a message names the file by another path.

The output root is another one if the settings file is a link to a file elsewhere and names a relative
directory.  The run that finds the file takes that directory from where the link leads, the run that is
given it from where the link stands.
-/
import Phrasebook.Proofs.Command.Outcome
import Phrasebook.Proofs.Workspace.Alike
import Phrasebook.Proofs.Workspace.Routes

namespace Phrasebook.Workspace

open World (Alike)

variable {version : Text} {files : List Path} {config other output : Option Path} {w : World}
  {content : ByteArray}

/-! ## Runs that end alike -/

/-- An outcome without what goes to standard error. -/
def Outcome.muted : Outcome → Outcome
  | .exit code output _ => .exit code output []
  | .crashed crash => .crashed crash

/-- From outcomes that agree, in alike worlds, a task goes on that does not heed messages. -/
theorem agree_sequence {α β : Type} {task task' : Task (StateM World) α}
    {next : α → Task (StateM World) β} {w' : World}
    (hagree : Agree (World.run task w).1 (World.run task' w').1)
    (halike : Alike (World.run task w).2 (World.run task' w').2)
    (hnext : ∀ a, Unheeding (World.run (next a))) :
    Agree (World.run (task >>= next) w).1 (World.run (task' >>= next) w').1 ∧
      Alike (World.run (task >>= next) w).2 (World.run (task' >>= next) w').2 := by
  rw [World.run_bind, World.run_bind]
  generalize World.run task w = ran at hagree halike ⊢
  generalize World.run task' w' = ran' at hagree halike ⊢
  obtain ⟨outcome, w₁⟩ := ran
  obtain ⟨outcome', w₁'⟩ := ran'
  cases outcome with
  | ok a =>
    obtain rfl : outcome' = .ok a := (hagree.ok_iff a).mp rfl
    obtain ⟨hresult, hworld⟩ := hnext a w₁ w₁' halike
    refine ⟨?_, hworld⟩
    show Agree (World.run (next a) w₁).1 (World.run (next a) w₁').1
    rw [hresult]
    exact .refl _
  | error fault =>
    cases outcome' with
    | ok b => cases hagree
    | error fault' => exact ⟨.error (Except.error.inj hagree), halike⟩

/-- How a run ends, standard error apart, is determined by what its command gives, messages apart. -/
theorem muted_execute (version : Text) (command : CommandLine.Command) (w : World) :
    (execute version command w).1.muted =
      match (World.run (perform version command) w).1.mapError Fault.crash? with
      | .ok output => (endPrinting w.host output).muted
      | .error none => .exit 2 [] []
      | .error (some c) => .crashed c := by
  rw [(execute_outcome version command w).1]
  cases (World.run (perform version command) w).1 with
  | ok text => rfl
  | error fault => cases fault <;> rfl

/-! ## Plans that agree -/

/-- A plan finds settings first and their output root then, whatever has been told meanwhile. -/
theorem run_plan (config output : Option Path) (w : World) :
    (World.run (plan config output) w).1 =
      (World.run (settingsFor config) w).1 >>= fun found =>
        (World.run (outputRoot found.1 found.2 output) w).1 >>= fun root =>
          Except.ok (found.1, root) := by
  obtain ⟨messages, hquiet⟩ := (asks_settingsFor_any config).quiet w
  unfold plan
  rw [World.run_bind, hquiet]
  cases (World.run (settingsFor config) w).1 with
  | error fault => rfl
  | ok found =>
    obtain ⟨settings, source⟩ := found
    have hroot := ((asks_outputRoot settings source output).unheeding w _ (.told w messages)).1
    simp only
    rw [World.run_bind]
    show _ = (World.run (outputRoot settings source output) w).1 >>= _
    rw [← hroot]
    rcases World.run (outputRoot settings source output) { w with messages } with ⟨outcome, w₁⟩
    cases outcome <;> rfl

/-- Settings with their source are settings that have been loaded. -/
theorem sourced_eq_ok_iff {loaded : Except Fault Settings} {path : Path} {settings : Settings}
    {source : Option Path} :
    (fun settings => (settings, some path)) <$> loaded = .ok (settings, source) ↔
      source = some path ∧ loaded = .ok settings := by
  cases loaded with
  | error fault => exact ⟨fun h => (nomatch h), fun h => (nomatch h.2)⟩
  | ok loaded =>
    show Except.ok (loaded, some path) = Except.ok (settings, source) ↔ _
    rw [Except.ok.injEq, Except.ok.injEq, Prod.mk.injEq, and_comm, eq_comm]

/-- Settings that are loaded in agreement make plans that agree, if they have one output root. -/
theorem agree_plan {source source' : Path} {loaded loaded' : Except Fault Settings}
    (hfound : (World.run (settingsFor config) w).1 =
      (fun settings => (settings, some source)) <$> loaded)
    (hfound' : (World.run (settingsFor other) w).1 =
      (fun settings => (settings, some source')) <$> loaded')
    (hagree : Agree loaded loaded')
    (hroot : ∀ settings, loaded = .ok settings →
      (World.run (outputRoot settings (some source) output) w).1 =
        (World.run (outputRoot settings (some source') output) w).1) :
    Agree (World.run (plan config output) w).1 (World.run (plan other output) w).1 := by
  rw [run_plan, run_plan, hfound, hfound', bind_map_left, bind_map_left]
  refine hagree.bind fun settings hloaded => ?_
  rw [hroot settings hloaded]
  exact .refl _

/-- Runs over the same files do the same if their plans agree. -/
theorem alike_generate
    (h : Agree (World.run (plan config output) w).1 (World.run (plan other output) w).1) :
    (execute version (.generate files output config) w).1.muted =
        (execute version (.generate files output other) w).1.muted ∧
      (execute version (.generate files output config) w).2.tree =
        (execute version (.generate files output other) w).2.tree := by
  obtain ⟨messages, hquiet⟩ := (asks_plan config output).quiet w
  obtain ⟨messages', hquiet'⟩ := (asks_plan other output).quiet w
  have hplanned : Alike (World.run (plan config output) w).2 (World.run (plan other output) w).2 := by
    rw [hquiet, hquiet']
    exact ⟨rfl, rfl, rfl⟩
  have hfiles : ∀ found : Settings × Path, Unheeding (World.run
      (files.foldlM (generateFile found.2 found.1)
        { toolVersion := version, outputRoot := found.2.text } >>= fun report =>
          (pure report.toJson.document : Task (StateM World) Text))) :=
    fun found => (Unheeding.foldlM (unheeding_generateFile found.2 found.1) files _).sequence
      fun _ => .give _
  obtain ⟨hagree, halike⟩ := agree_sequence h hplanned hfiles
  rw [← perform_generate, ← perform_generate] at hagree halike
  have hsame : Except.mapError Fault.crash? _ = Except.mapError Fault.crash? _ := hagree
  constructor
  · rw [muted_execute, muted_execute, hsame]
  · rw [(execute_outcome ..).2, (execute_outcome ..).2]
    exact halike.tree.symm

/-! ## The settings file of the working directory -/

/-- Two generating runs where the working directory has a settings file: one looks for it, the other is
given it.  The first uses the place to which the links of the file lead, the second the path that is
given, and they read the same settings.  A relative output directory is taken from the directory of
that place in the first run and from the working directory in the second.  If both come to one output
root the runs end alike, and they leave one tree. -/
theorem generate_configured (version : Text) {arguments arguments' : List Text}
    {debug debug' : Bool} (hsound : w.Sound)
    (hfile : w.tree.status w.directory localSettings = .ok (.file content))
    (haddress : w.tree.Addressable w.directory [settingsFileName])
    (hread : CommandLine.read arguments = .ok ⟨debug, .generate files none none⟩)
    (hread' : CommandLine.read arguments' =
      .ok ⟨debug', .generate files none (some localSettings)⟩) :
    ∃ place, w.tree.Leads w.directory [settingsFileName] place ∧
      w.tree.at? place = some (.file content) ∧
      ((∀ destination,
          w.tree.at? (w.directory ++ [settingsFileName]) ≠ some (.link destination)) →
        place = w.directory ++ [settingsFileName]) ∧
      (∀ settings source, (World.run (settingsFor none) w).1 = .ok (settings, source) ↔
        source = some (Path.ofPlace place) ∧
          (World.run (settingsFor (some localSettings)) w).1 =
            .ok (settings, some localSettings)) ∧
      (∀ settings, (World.run (outputRoot settings (some (Path.ofPlace place)) none) w).1 =
          rootFrom w.tree place.dropLast settings ∧
        (World.run (outputRoot settings (some localSettings) none) w).1 =
          rootFrom w.tree w.directory settings) ∧
      ((∀ settings source, (World.run (settingsFor none) w).1 = .ok (settings, source) →
          rootFrom w.tree place.dropLast settings = rootFrom w.tree w.directory settings) →
        (runProgram (m := StateM World) version arguments w).1.muted =
            (runProgram (m := StateM World) version arguments' w).1.muted ∧
          (runProgram (m := StateM World) version arguments w).2.tree =
            (runProgram (m := StateM World) version arguments' w).2.tree) := by
  obtain ⟨place, hleads, hat, hresolve, hgoal, hplace⟩ := found_of_status hsound hfile haddress
  have hfound := run_settingsFor_found hresolve (FileTree.status_eq_ok_iff.mpr ⟨place, hplace⟩)
  have hgiven := run_settingsFor_file hfile
  have hagree := loadSettings_agree hplace hgoal
  have hroot := run_outputRoot_ofPlace hsound.tree hat (haddress.goal place hleads)
  refine ⟨place, hleads, hat, fun hno => ?_, fun settings source => ?_,
    fun settings => ⟨hroot settings, run_outputRoot_local settings⟩, fun hroots => ?_⟩
  · exact hleads.unique (.name isName_settingsFileName hno (.done _))
  · rw [hfound, hgiven]
    rw [sourced_eq_ok_iff, sourced_eq_ok_iff, hagree.ok_iff]
    exact and_congr_right fun _ => (and_iff_right rfl).symm
  · rw [runProgram_of_read hread, runProgram_of_read hread']
    refine alike_generate (agree_plan hfound hgiven hagree fun settings hloaded => ?_)
    rw [hroot settings, run_outputRoot_local settings]
    refine hroots settings (some (Path.ofPlace place)) ?_
    rw [hfound, hloaded]
    rfl

/-! ### Links in the place of the settings file -/

/-- A world in which the settings file is a link to a file beside it. -/
def aliased : World where
  tree := ⟨[(["w"], .directory), (["w", "p.yaml"], textFile "package: a"),
    (["w", "conf.yaml"], textFile "output_dir: gen"),
    (["w", "paraphrase.yaml"], .link "conf.yaml")]⟩
  directory := ["w"]

/-- A world in which it is a link to a file in another directory. -/
def parted : World where
  tree := ⟨[(["w"], .directory), (["w", "p.yaml"], textFile "package: a"),
    (["w", "conf"], .directory), (["w", "conf", "all.yaml"], textFile "output_dir: gen"),
    (["w", "paraphrase.yaml"], .link "conf/all.yaml")]⟩
  directory := ["w"]

/-- The run that looks for the settings file, and the run that is given it. -/
def seeking : List Text := ["generate", "p.yaml"]

def naming : List Text := ["generate", "p.yaml", "--config", "paraphrase.yaml"]

theorem read_seeking : CommandLine.read seeking =
    .ok ⟨false, .generate [Path.ofText "p.yaml"] none none⟩ := by
  decide +kernel

theorem read_naming : CommandLine.read naming =
    .ok ⟨false, .generate [Path.ofText "p.yaml"] none (some localSettings)⟩ := by
  decide +kernel

theorem leads_aliased :
    aliased.tree.Leads aliased.directory [settingsFileName] ["w", "conf.yaml"] := by
  have hlink : aliased.tree.at? ["w", "paraphrase.yaml"] = some (.link "conf.yaml") := rfl
  exact .link isName_settingsFileName hlink (.name (by decide) (fun _ h => nomatch h) (.done _))

/-- Both runs take the directory of the settings from one place there, and end alike. -/
theorem generate_configured_aliased :
    aliased.Sound ∧ aliased.tree.Addressable aliased.directory [settingsFileName] ∧
      (runProgram (m := StateM World) "0.1.0" seeking aliased).1.muted =
          (runProgram (m := StateM World) "0.1.0" naming aliased).1.muted ∧
        (runProgram (m := StateM World) "0.1.0" seeking aliased).2.tree =
          (runProgram (m := StateM World) "0.1.0" naming aliased).2.tree := by
  have hsound : aliased.Sound := ⟨FileTree.Sound.of_soundEntries (by decide), rfl⟩
  have haddress : aliased.tree.Addressable aliased.directory [settingsFileName] :=
    .of_entries (by decide) leads_aliased (fun h => nomatch h)
  have hfile : aliased.tree.status aliased.directory localSettings =
      .ok (textFile "output_dir: gen") :=
    FileTree.read_eq_ok_iff.mp (by decide +kernel)
  obtain ⟨place, hleads, -, -, -, -, hruns⟩ :=
    generate_configured "0.1.0" hsound hfile haddress read_seeking read_naming
  obtain rfl := hleads.unique leads_aliased
  exact ⟨hsound, haddress, hruns fun _ _ _ => rfl⟩

/-- What is reported for an output root. -/
def reportAt (root : Text) : Report := ⟨"0.1.0", root, [⟨"a", root ++ "/a/Phrase.java", 0⟩]⟩

/-- Where the link leads to another directory, the run that looks for the settings file writes there,
and the run that is given it writes in the working directory. -/
theorem runs_parted :
    parted.tree.read parted.directory localSettings =
        .ok ((Text.ofString "output_dir: gen").encode?.getD .empty) ∧
      (runProgram (m := StateM World) "0.1.0" seeking parted).1 =
        .exit 0 (reportAt "/w/conf/gen").toJson.document [] ∧
      (runProgram (m := StateM World) "0.1.0" naming parted).1 =
        .exit 0 (reportAt "/w/gen").toJson.document [] ∧
      (reportAt "/w/conf/gen").toJson.document ≠ (reportAt "/w/gen").toJson.document := by
  decide +kernel

end Phrasebook.Workspace
