/-
# Phrasebook.Proofs.Command.Generate -- what a generating run leaves behind

A run that ends well has found settings and an output root, has read its files, and has written
their batches in order.  Its report has one entry for each batch, and every file of the report holds
the text of its batch, provided that no later batch has the same package.

That condition is not an idle one.  Two batches of one package have one target path: the second
file replaces the first, and the report still lists both.
-/
import Phrasebook.Proofs.Workspace.Batches

namespace Phrasebook.Workspace

variable {version printed errors : Text} {files : List Path} {config output : Option Path}
  {settings : Settings} {root : Path} {w w₀ w' : World}

/-- Runs a command in a world: how that ends, and the world after it. -/
def execute (version : Text) (command : CommandLine.Command) (w : World) : Outcome × World :=
  runCommand (m := StateM World) version command w

/-- How a run ends that has something to print, which standard output takes or not. -/
def endPrinting (host : Host) (output : Text) : Outcome :=
  if host.takes output then .exit 0 output [] else .crashed .unencodable

/-- Printing changes nothing. -/
theorem finish_apply (output : Text) (w : World) :
    finish (m := StateM World) output w = (endPrinting w.host output, w) := by
  unfold finish endPrinting
  rw [World.bind_apply]
  show (if w.host.takes output = true then _ else _ : StateM World Outcome) w = _
  split <;> rfl

theorem endPrinting_cases (host : Host) (output : Text) :
    host.takes output = true ∧ endPrinting host output = .exit 0 output [] ∨
      host.takes output = false ∧ endPrinting host output = .crashed .unencodable := by
  unfold endPrinting
  cases host.takes output with
  | true => exact Or.inl ⟨rfl, rfl⟩
  | false => exact Or.inr ⟨rfl, rfl⟩

theorem endPrinting_eq_exit_iff {host : Host} {output : Text} {code : Nat} :
    endPrinting host output = .exit code printed errors ↔
      host.takes output = true ∧ code = 0 ∧ printed = output ∧ errors = [] := by
  rcases endPrinting_cases host output with ⟨htaken, h⟩ | ⟨hrefused, h⟩
  · rw [h, Outcome.exit.injEq]
    exact ⟨fun ⟨h, h', h''⟩ => ⟨htaken, h.symm, h'.symm, h''.symm⟩,
      fun ⟨_, h, h', h''⟩ => ⟨h.symm, h'.symm, h''.symm⟩⟩
  · rw [h, hrefused]
    exact ⟨fun h => (nomatch h), fun h => (nomatch h.1)⟩

/-- A run that exits with zero prints what its task gives, and standard output takes it. -/
theorem execute_eq_exit_zero {command : CommandLine.Command} :
    execute version command w = (.exit 0 printed errors, w') ↔
      World.run (perform version command) w = (.ok printed, w') ∧
        w'.host.takes printed = true ∧ errors = [] := by
  have hrun : ExceptT.run (perform (m := StateM World) version command) w =
      World.run (perform version command) w := rfl
  unfold execute runCommand
  rw [World.bind_apply, hrun]
  rcases World.run (perform version command) w with ⟨outcome, w₁⟩
  cases outcome with
  | ok text =>
    simp only
    rw [finish_apply]
    constructor
    · intro h
      obtain ⟨houtcome, rfl⟩ := Prod.mk.inj h
      obtain ⟨htaken, -, rfl, rfl⟩ := endPrinting_eq_exit_iff.mp houtcome
      exact ⟨rfl, htaken, rfl⟩
    · rintro ⟨h, htaken, rfl⟩
      obtain ⟨houtcome, rfl⟩ := Prod.mk.inj h
      obtain rfl := Except.ok.inj houtcome
      rw [endPrinting_eq_exit_iff.mpr ⟨htaken, rfl, rfl, rfl⟩]
  | error fault =>
    -- neither of the two ways to fail exits with zero
    refine ⟨fun h => ?_, fun h => nomatch h.1⟩
    cases fault with
    | crash crash => exact nomatch (Prod.mk.inj h).1
    | user fault => exact nomatch (Prod.mk.inj h).1

/-! ## Settings and the output root -/

/-- What a run finds out before it reads its files: the settings and the output root. -/
def plan (config output : Option Path) : Task (StateM World) (Settings × Path) := do
  let (settings, file) ← settingsFor config
  return (settings, ← outputRoot settings file output)

/-- Planning changes nothing. -/
theorem asks_plan (config output : Option Path) : Asks everything (plan config output) := by
  refine (asks_settingsFor_any config).bind fun found => ?_
  obtain ⟨settings, file⟩ := found
  exact (asks_outputRoot settings file output).bind fun _ => .pure _

/-- A plan has found settings first, and an output root for them then. -/
theorem plan_eq_ok (h : World.run (plan config output) w = (.ok (settings, root), w₀)) :
    ∃ source messages,
      World.run (settingsFor config) w = (.ok (settings, source), { w with messages }) ∧
        (World.run (outputRoot settings source output) { w with messages }).1 = .ok root := by
  obtain ⟨messages, hquiet⟩ := (asks_settingsFor_any config).quiet w
  unfold plan at h
  rw [World.run_bind, hquiet] at h
  cases hfound : (World.run (settingsFor config) w).1 with
  | error fault =>
    rw [hfound] at h
    cases h
  | ok found =>
    obtain ⟨settings', source⟩ := found
    rw [hfound] at h hquiet
    simp only at h
    rw [World.run_bind] at h
    cases hroot : World.run (outputRoot settings' source output) { w with messages } with
    | mk outcome w₁ =>
      rw [hroot] at h
      cases outcome with
      | error fault => cases h
      | ok root' =>
        obtain ⟨rfl, rfl⟩ := Prod.mk.inj (Except.ok.inj (Prod.mk.inj h).1)
        exact ⟨source, messages, hquiet, congrArg Prod.fst hroot⟩

theorem isAbsolute_of_plan (h : World.run (plan config output) w = (.ok (settings, root), w₀)) :
    root.isAbsolute = true := by
  obtain ⟨source, messages, -, hroot⟩ := plan_eq_ok h
  exact isAbsolute_of_outputRoot hroot

/-- A run makes its plan, generates its files one after the other and prints a report. -/
theorem perform_generate :
    perform (m := StateM World) version (.generate files output config) =
      plan config output >>= fun found =>
        files.foldlM (generateFile found.2 found.1)
          { toolVersion := version, outputRoot := found.2.text } >>= fun report =>
            pure report.toJson.document := by
  unfold perform plan
  simp only [bind_assoc, pure_bind]

/-- No command changes the host or the working directory. -/
theorem perform_staying (version : Text) (command : CommandLine.Command) :
    World.Staying (perform version command) := by
  cases command with
  | generate files output config =>
    rw [perform_generate]
    refine (asks_plan config output).staying.bind fun found => ?_
    refine World.Staying.bind (.foldlM (fun report file => ?_) _ files) fun report => .pure _
    refine (asks_loadPhrases file).staying.bind fun batches => ?_
    refine World.Staying.foldlM (fun report batch => ?_) report batches
    exact (emit_staying found.2 found.1 batch).bind fun path => .pure _
  | render file package config =>
    refine (asks_settingsFor_any config).staying.bind fun found => ?_
    refine (asks_loadPhrases file).staying.bind fun batches => ?_
    cases choose batches package file with
    | ok batch => exact generate_staying batch found.1
    | error fault => exact .throw _
  | list file => exact (asks_loadPhrases file).staying.bind fun batches => .pure _

/-- A run that succeeds has generated its files according to its plan. -/
theorem generate_eq_ok
    (hrun : execute version (.generate files output config) w = (.exit 0 printed errors, w')) :
    ∃ settings root w₀ report, World.run (plan config output) w = (.ok (settings, root), w₀) ∧
      World.run (files.foldlM (generateFile root settings)
        { toolVersion := version, outputRoot := root.text }) w₀ = (.ok report, w') ∧
      printed = report.toJson.document := by
  obtain ⟨hperform, -⟩ := execute_eq_exit_zero.mp hrun
  rw [perform_generate, World.run_bind] at hperform
  cases hplan : World.run (plan config output) w with
  | mk outcome w₀ =>
    rw [hplan] at hperform
    cases outcome with
    | error fault => cases hperform
    | ok found =>
      obtain ⟨settings, root⟩ := found
      simp only at hperform
      rw [World.run_bind] at hperform
      cases hfiles : World.run (files.foldlM (generateFile root settings)
          { toolVersion := version, outputRoot := root.text }) w₀ with
      | mk outcome w₁ =>
        rw [hfiles] at hperform
        cases outcome with
        | error fault => cases hperform
        | ok report =>
          obtain ⟨hprinted, rfl⟩ := Prod.mk.inj hperform
          exact ⟨settings, root, w₀, report, rfl, hfiles, (Except.ok.inj hprinted).symm⟩

/-! ## The report and the files -/

/-- A run that succeeds reports one file for each batch that it has read, in the order of its files
and of the batches in them.  Every file can be read again and gives the same batches.  The last batch of
a package is stored at the path of its entry; an earlier one of that package, whose entry names the
same path, is stored there only if it has the same text. -/
theorem generate_reports
    (hplan : World.run (plan config output) w = (.ok (settings, root), w₀))
    (hvalidate : settings.validate = true) (hlinkfree : w.tree.LinkfreeBelow root)
    (hfiles : ∀ file ∈ files, w.tree.Avoids w.directory file
      (WrittenFor w.tree root (batchesRead root settings files w₀).flatten))
    (hrun : execute version (.generate files output config) w = (.exit 0 printed errors, w')) :
    printed = (Report.mk version root.text
        ((batchesRead root settings files w₀).flatten.map (entryOf root))).toJson.document ∧
      List.Forall₂ (fun file batches => (World.run (loadPhrases file) w').1 = .ok batches)
        files (batchesRead root settings files w₀) ∧
      ∀ before batch after,
        (batchesRead root settings files w₀).flatten = before ++ batch :: after →
        (∀ later ∈ after, later.package ≠ batch.package) →
          Stored root settings w'.tree w'.directory batch ∧
            ∀ earlier ∈ before, earlier.package = batch.package →
              (Stored root settings w'.tree w'.directory earlier ↔
                sourceText earlier settings = sourceText batch settings) := by
  obtain ⟨settings', root', w₁, report, hplan', hwritten, rfl⟩ := generate_eq_ok hrun
  rw [hplan] at hplan'
  obtain ⟨hfound, rfl⟩ := Prod.mk.inj hplan'
  obtain ⟨rfl, rfl⟩ := Prod.mk.inj (Except.ok.inj hfound)
  -- planning has only told something
  obtain ⟨messages, hquiet⟩ := (asks_plan config output).quiet w
  rw [hplan] at hquiet
  obtain rfl := (Prod.mk.inj hquiet).2
  obtain ⟨rfl, hwrote, hagain⟩ :=
    wrote_of_files (w := { w with messages }) hvalidate (isAbsolute_of_plan hplan) hlinkfree hwritten
  refine ⟨rfl, hagain hfiles, fun before batch after hsplit hlast => ?_⟩
  have hstored := hwrote.stored before batch after hsplit hlast
  exact ⟨hstored, fun earlier _ hpackage => hstored.iff_of_package_eq hpackage⟩

/-! ### Two batches of one package -/

/-- The file that holds a text. -/
def textFile (text : Text) : Entry := .file (text.encode?.getD .empty)

/-- A world with a phrase file in which two batches have one package. -/
def twins : World where
  tree := ⟨[(["w"], .directory), (["w", "p.yaml"],
    textFile "batches: [{package: a}, {package: a, phrases: [{name: b}]}]")]⟩
  directory := ["w"]

def firstTwin : Batch := ⟨"a", []⟩

def secondTwin : Batch := ⟨"a", [⟨"b", none, []⟩]⟩

/-- Where both of them are written. -/
def twinRoot : Path := Path.ofText "/w/out"

/-- What is reported then, with one path for both. -/
def twinReport : Report :=
  ⟨"0.1.0", "/w/out", [⟨"a", "/w/out/a/Phrase.java", 0⟩, ⟨"a", "/w/out/a/Phrase.java", 1⟩]⟩

/-- The plan for writing both, what is read then, how the run ends, and that the texts differ. -/
theorem runs_twins :
    (World.run (plan none (some (Path.ofText "out"))) twins).1 = .ok ({ }, twinRoot) ∧
      batchesRead twinRoot { } [Path.ofText "p.yaml"]
        (World.run (plan none (some (Path.ofText "out"))) twins).2 = [[firstTwin, secondTwin]] ∧
      (execute "0.1.0" (.generate [Path.ofText "p.yaml"] (some (Path.ofText "out")) none) twins).1 =
        .exit 0 twinReport.toJson.document [] ∧
      sourceText firstTwin { } ≠ sourceText secondTwin { } := by
  decide +kernel

theorem linkless_twins : twins.tree.Linkless := FileTree.linkless_of_linkCount (by decide)

/-- The phrase file is not written. -/
theorem avoids_twins : twins.tree.Avoids twins.directory (Path.ofText "p.yaml")
    (WrittenFor twins.tree twinRoot [firstTwin, secondTwin]) :=
  avoids_writtenFor (by decide) (by decide) (by decide)

/-- The second batch is stored where both entries point to. -/
theorem generate_reports_twins : ∃ w₀ w',
    World.run (plan none (some (Path.ofText "out"))) twins = (.ok ({ }, twinRoot), w₀) ∧
      twins.tree.LinkfreeBelow twinRoot ∧
      twins.tree.Avoids twins.directory (Path.ofText "p.yaml")
        (WrittenFor twins.tree twinRoot [firstTwin, secondTwin]) ∧
      execute "0.1.0" (.generate [Path.ofText "p.yaml"] (some (Path.ofText "out")) none) twins =
        (.exit 0 twinReport.toJson.document [], w') ∧
      Stored twinRoot { } w'.tree w'.directory secondTwin := by
  obtain ⟨hfound, hread, houtcome, -⟩ := runs_twins
  -- what the two runs lead to is not computed again
  generalize hplan : World.run (plan none (some (Path.ofText "out"))) twins = planned
    at hfound hread
  generalize hrun : execute "0.1.0"
    (.generate [Path.ofText "p.yaml"] (some (Path.ofText "out")) none) twins = ran at houtcome
  obtain ⟨found, w₀⟩ := planned
  obtain ⟨outcome, w'⟩ := ran
  obtain rfl : found = .ok ({ }, twinRoot) := hfound
  obtain rfl : outcome = .exit 0 twinReport.toJson.document [] := houtcome
  have hlinkfree := linkless_twins.below twinRoot
  have havoids : ∀ file ∈ [Path.ofText "p.yaml"], twins.tree.Avoids twins.directory file
      (WrittenFor twins.tree twinRoot
        (batchesRead twinRoot { } [Path.ofText "p.yaml"] w₀).flatten) := by
    intro file hfile
    rw [List.mem_singleton.mp hfile, hread]
    exact avoids_twins
  obtain ⟨-, -, hlast⟩ := generate_reports hplan rfl hlinkfree havoids hrun
  have hstored := hlast [firstTwin] secondTwin [] (by rw [hread]; rfl) fun later hm => nomatch hm
  exact ⟨w₀, w', rfl, hlinkfree, avoids_twins, rfl, hstored.1⟩

/-- Although the run succeeds and reports both, not both of them are stored. -/
theorem twins_not_both_stored : ∃ w',
    execute "0.1.0" (.generate [Path.ofText "p.yaml"] (some (Path.ofText "out")) none) twins =
        (.exit 0 twinReport.toJson.document [], w') ∧
      ¬ ∀ batch ∈ [firstTwin, secondTwin],
        Stored twinRoot { } w'.tree w'.directory batch := by
  obtain ⟨-, -, houtcome, hne⟩ := runs_twins
  generalize execute "0.1.0"
    (.generate [Path.ofText "p.yaml"] (some (Path.ofText "out")) none) twins = ran at houtcome ⊢
  obtain ⟨outcome, w'⟩ := ran
  obtain rfl : outcome = .exit 0 twinReport.toJson.document [] := houtcome
  refine ⟨w', rfl, fun hstored => ?_⟩
  have hfirst := hstored firstTwin (by simp)
  have hsecond := hstored secondTwin (by simp)
  have hpackage : firstTwin.package = secondTwin.package := rfl
  exact hne ((hsecond.iff_of_package_eq hpackage).mp hfirst)

end Phrasebook.Workspace
