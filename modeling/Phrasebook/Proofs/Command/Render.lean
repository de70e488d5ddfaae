/-
# Phrasebook.Proofs.Command.Render -- printing a source text and writing it

`render` prints the text that `generate` writes.  The two come to it on different ways: one looks a
package up among the batches of a file, the other takes the batches one after the other and leaves
files behind.  They agree because a batch and its settings determine the text, and because a
generating run does not touch what either of them reads.

So it does not matter which of the two is run first, with one reservation for settings that are
looked for and not found (see `SettingsApart`).
-/
import Phrasebook.Proofs.Command.Generate

namespace Phrasebook.Workspace

variable {version printed errors text : Text} {file : Path} {config output source : Option Path}
  {settings : Settings} {root : Path} {w w₀ w' : World} {batches : List Batch} {batch : Batch}

/-- In a list of batches with different packages each of them is found by its package. -/
theorem choose_eq_ok (hdistinct : (batches.map Batch.package).Nodup) (hmem : batch ∈ batches)
    (file : Path) : choose batches (some batch.package) file = .ok batch := by
  have hfound : batches.find? (fun b => b.package = batch.package) = some batch := by
    cases hfind : batches.find? (fun b => b.package = batch.package) with
    | none => exact absurd hmem fun hm => by simpa using List.find?_eq_none.mp hfind batch hm
    | some other =>
      have hother : other ∈ batches := List.mem_of_find?_eq_some hfind
      have hname : other.package = batch.package := by simpa using List.find?_some hfind
      rw [List.inj_on_of_nodup_map hdistinct hother hmem hname]
  unfold choose
  simp only [hfound]

/-- A run comes to the text of a batch where its settings and its file can be read and its text can be
made. -/
theorem render_gives (hsettings : ∃ messages,
      World.run (settingsFor config) w = (.ok (settings, source), { w with messages }))
    (hload : ∀ messages, (World.run (loadPhrases file) { w with messages }).1 = .ok batches)
    (hdistinct : (batches.map Batch.package).Nodup) (hmem : batch ∈ batches)
    (htext : sourceText batch settings = .ok text) :
    ∃ messages, World.run (perform version (.render file (some batch.package) config)) w =
      (.ok text, { w with messages }) := by
  obtain ⟨messages, hfound⟩ := hsettings
  obtain ⟨messages₁, hquiet⟩ := (asks_loadPhrases file).quiet { w with messages }
  have hgenerate := run_generate batch settings { w with messages := messages₁ }
  rw [htext] at hgenerate
  obtain ⟨messages₂, hgenerate⟩ := hgenerate
  refine ⟨messages₂, ?_⟩
  unfold perform
  rw [World.run_bind, hfound]
  simp only
  rw [World.run_bind, hquiet, hload messages]
  simp only [choose_eq_ok hdistinct hmem file]
  exact hgenerate

/-- It prints the text if that has a form in bytes. -/
theorem render_eq (hsettings : ∃ messages,
      World.run (settingsFor config) w = (.ok (settings, source), { w with messages }))
    (hload : ∀ messages, (World.run (loadPhrases file) { w with messages }).1 = .ok batches)
    (hdistinct : (batches.map Batch.package).Nodup) (hmem : batch ∈ batches)
    (htext : sourceText batch settings = .ok text) (hencoded : text.encode?.isSome) :
    ∃ messages, execute version (.render file (some batch.package) config) w =
      (.exit 0 text [], { w with messages }) := by
  obtain ⟨messages, hgives⟩ := render_gives hsettings hload hdistinct hmem htext
  exact ⟨messages, execute_eq_exit_zero.mpr ⟨hgives, w.host.takes_encoded hencoded, rfl⟩⟩

/-- A run over one file has written the batches of that file. -/
theorem wrote_of_generate
    (hplan : World.run (plan config output) w = (.ok (settings, root), w₀))
    (hvalidate : settings.validate = true) (hlinkfree : w.tree.LinkfreeBelow root)
    (hload : (World.run (loadPhrases file) w).1 = .ok batches)
    (hrun : execute version (.generate [file] output config) w = (.exit 0 printed errors, w')) :
    Wrote root settings batches w w' := by
  obtain ⟨settings', root', w₁, report, hplan', hfiles, -⟩ := generate_eq_ok hrun
  rw [hplan] at hplan'
  obtain ⟨hfound, rfl⟩ := Prod.mk.inj hplan'
  obtain ⟨rfl, rfl⟩ := Prod.mk.inj (Except.ok.inj hfound)
  obtain ⟨messages, hquiet⟩ := (asks_plan config output).quiet w
  rw [hplan] at hquiet
  obtain rfl := (Prod.mk.inj hquiet).2
  rw [List.foldlM_cons, World.run_bind] at hfiles
  cases hfile : World.run (generateFile root settings
      { toolVersion := version, outputRoot := root.text } file) { w with messages } with
  | mk outcome w₂ =>
    rw [hfile] at hfiles
    cases outcome with
    | error fault => cases hfiles
    | ok report₁ =>
      obtain ⟨-, rfl⟩ := Prod.mk.inj hfiles
      -- the file is read as before, for planning has only told something
      obtain ⟨batches', messages', hload', hbatches⟩ := generateFile_eq_ok hfile
      have hagain := loadPhrases_told hload messages
      rw [hload'] at hagain
      obtain rfl := Except.ok.inj hagain
      obtain ⟨-, -, hwrote⟩ := wrote_of_foldlM (w := { w with messages := messages' }) hvalidate
        (isAbsolute_of_plan hplan) hlinkfree hbatches
      exact (Wrote.nothing messages').append hwrote

/-- What a generating run has written, `render` prints, before the run and after it, and changes
nothing by that. -/
theorem render_agrees (hsound : w.Sound)
    (hplan : World.run (plan config output) w = (.ok (settings, root), w₀))
    (hvalidate : settings.validate = true) (hlinkfree : w.tree.LinkfreeBelow root)
    (hload : (World.run (loadPhrases file) w).1 = .ok batches)
    (hdistinct : (batches.map Batch.package).Nodup)
    (hfile : w.tree.Avoids w.directory file (WrittenFor w.tree root batches))
    (hsettings : SettingsApart w config (WrittenFor w.tree root batches))
    (hrun : execute version (.generate [file] output config) w = (.exit 0 printed errors, w')) :
    ∀ batch ∈ batches, ∃ text content, text.encode? = some content ∧
      w'.tree.read w'.directory (targetPath root batch.package) = .ok content ∧
        ∀ world, world = w ∨ world = w' → ∃ messages,
          execute version (.render file (some batch.package) config) world =
            (.exit 0 text [], { world with messages }) := by
  have hwrote := wrote_of_generate hplan hvalidate hlinkfree hload hrun
  obtain ⟨source, messages, hfound, -⟩ := plan_eq_ok hplan
  -- both worlds give the same settings
  have hsettings' := settingsFor_kept hsound hwrote.host hwrote.directory hwrote.kept hsettings
    (congrArg Prod.fst hfound)
  intro batch hmem
  obtain ⟨text, content, htext, henc, hcontent⟩ := hwrote.stored_of_distinct hdistinct hmem
  have hencoded : text.encode?.isSome := by rw [henc]; rfl
  refine ⟨text, content, henc, hcontent, ?_⟩
  rintro world (rfl | rfl)
  · exact render_eq ⟨messages, hfound⟩ (loadPhrases_told hload) hdistinct hmem htext hencoded
  · exact render_eq hsettings' (hwrote.loadPhrases_eq hload hfile) hdistinct hmem htext hencoded

/-- For a batch the text is printed that is stored at its target path. -/
def PrintsStored (version : Text) (root file : Path) (config : Option Path) (batch : Batch)
    (w : World) : Prop :=
  ∃ text content, text.encode? = some content ∧
    w.tree.read w.directory (targetPath root batch.package) = .ok content ∧
      (execute version (.render file (some batch.package) config) w).1 = .exit 0 text []

/-- With settings that make another text it is not the stored one that is printed. -/
theorem Wrote.not_printsStored (h : Wrote root settings batches w w') {other : Settings}
    (hload : (World.run (loadPhrases file) w).1 = .ok batches)
    (hfile : w.tree.Avoids w.directory file (WrittenFor w.tree root batches))
    (hdistinct : (batches.map Batch.package).Nodup) (hmem : batch ∈ batches)
    (hsettings : (World.run (settingsFor config) w').1 = .ok (other, source))
    (htext : sourceText batch other = .ok text) (hne : sourceText batch settings ≠ .ok text) :
    ¬ PrintsStored version root file config batch w' := by
  rintro ⟨printed, content, hencoded, hread, hprinted⟩
  -- the text for the other settings is printed
  obtain ⟨messages, hquiet⟩ := (asks_settingsFor_any config).quiet w'
  rw [hsettings] at hquiet
  obtain ⟨_, hgives⟩ : ∃ messages, World.run (perform version
      (.render file (some batch.package) config)) w' = (.ok text, { w' with messages }) :=
    render_gives ⟨messages, hquiet⟩ (h.loadPhrases_eq hload hfile) hdistinct hmem htext
  obtain ⟨hgiven, -, -⟩ := execute_eq_exit_zero.mp (Prod.ext hprinted rfl)
  obtain rfl : text = printed := Except.ok.inj (congrArg Prod.fst (hgives.symm.trans hgiven))
  -- and the file has the text for the first ones
  obtain ⟨stored, content', hstored, hencoded', hread'⟩ := h.stored_of_distinct hdistinct hmem
  obtain rfl : content' = content := Except.ok.inj (hread'.symm.trans hread)
  obtain rfl := Text.encode?_injective hencoded' hencoded
  exact hne hstored

/-! ### Settings that are found, and settings that are found too late -/

/-- Two batches with a phrase each. -/
def greetings : List Batch := [
  ⟨"a.b", [⟨"greeting", some "Says hello.", ["user", "place"]⟩]⟩,
  ⟨"c", [⟨"farewell", none, []⟩]⟩]

/-- A world with a phrase file that holds them, and with settings where they are looked for. -/
def configured : World where
  tree := ⟨[(["w"], .directory),
    (["w", "p.yaml"], textFile ("batches:\n- package: a.b\n  phrases:\n  - name: greeting\n" ++
      "    doc: Says hello.\n    tokens: [user, place]\n" ++
      "- package: c\n  phrases:\n  - name: farewell\n")),
    (["w", "paraphrase.yaml"], textFile "header: x")]⟩
  directory := ["w"]

/-- A world in which the settings are looked for along a link that leads back to itself, and so by a
link to a file that can be reached only when there is a directory `new`. -/
def belated : World where
  tree := ⟨[(["w"], .directory), (["w", "p.yaml"], textFile "package: a"),
    (["w", "x.yaml"], textFile "header: x"), (["w", "loop"], .link "loop"),
    (["w", "lnk"], .link "new/../x.yaml"), (["w", "paraphrase.yaml"], .link "loop/../lnk")]⟩
  directory := ["w"]

/-- The only batch of its phrase file. -/
def onlyBatch : Batch := ⟨"a", []⟩

/-- Where batches are written. -/
def newRoot : Path := Path.ofText "/w/new"

def greetingsReport : Report :=
  ⟨"0.1.0", "/w/new", [⟨"a.b", "/w/new/a/b/Phrase.java", 1⟩, ⟨"c", "/w/new/c/Phrase.java", 1⟩]⟩

def newReport : Report := ⟨"0.1.0", "/w/new", [⟨"a", "/w/new/a/Phrase.java", 0⟩]⟩

/-- The plan for writing there, what is read, how the run ends, and where the settings are found. -/
theorem runs_configured :
    (World.run (plan none (some (Path.ofText "new"))) configured).1 =
        .ok ({ header := "x" }, newRoot) ∧
      (World.run (loadPhrases (Path.ofText "p.yaml")) configured).1 = .ok greetings ∧
      (execute "0.1.0" (.generate [Path.ofText "p.yaml"] (some (Path.ofText "new")) none)
        configured).1 = .exit 0 greetingsReport.toJson.document [] ∧
      configured.tree.resolve configured.directory (soughtPath configured.directory) =
        .ok (Path.ofPlace ["w", "paraphrase.yaml"]) ∧
      configured.tree.read configured.directory (Path.ofPlace ["w", "paraphrase.yaml"]) =
        .ok ((Text.ofString "header: x").encode?.getD .empty) := by
  decide +kernel

theorem sound_configured : configured.Sound :=
  ⟨FileTree.Sound.of_soundEntries (by decide), rfl⟩

theorem linkfree_configured : configured.tree.LinkfreeBelow newRoot :=
  FileTree.linkfreeBelow_of_clear (by decide) (by decide) (by decide)

theorem avoids_configured : configured.tree.Avoids configured.directory (Path.ofText "p.yaml")
    (WrittenFor configured.tree newRoot greetings) :=
  avoids_writtenFor (by decide) (by decide) (by decide)

/-- The settings are found, and they are not written. -/
theorem settingsApart_configured :
    SettingsApart configured none (WrittenFor configured.tree newRoot greetings) := by
  obtain ⟨-, -, -, hresolve, hread⟩ := runs_configured
  intro place hplace
  rw [hresolve] at hplace
  obtain rfl : Path.parts (Path.ofPlace ["w", "paraphrase.yaml"]) = place :=
    congrArg Path.parts (Except.ok.inj hplace)
  refine ⟨avoids_writtenFor (by decide) (by decide) (by decide), fun hnone => ?_⟩
  exact absurd rfl (hnone _ (FileTree.read_eq_ok_iff.mp hread))

/-- Both batches are printed with these settings before and after they are written. -/
theorem render_agrees_configured : ∃ w₀ w',
    World.run (plan none (some (Path.ofText "new"))) configured =
        (.ok ({ header := "x" }, newRoot), w₀) ∧
      SettingsApart configured none (WrittenFor configured.tree newRoot greetings) ∧
      execute "0.1.0" (.generate [Path.ofText "p.yaml"] (some (Path.ofText "new")) none)
        configured = (.exit 0 greetingsReport.toJson.document [], w') ∧
      ∀ batch ∈ greetings, ∃ text content, text.encode? = some content ∧
        w'.tree.read w'.directory (targetPath newRoot batch.package) = .ok content ∧
          ∀ world, world = configured ∨ world = w' → ∃ messages,
            execute "0.1.0" (.render (Path.ofText "p.yaml") (some batch.package) none) world =
              (.exit 0 text [], { world with messages }) := by
  obtain ⟨hfound, hload, houtcome, -⟩ := runs_configured
  -- what the two runs lead to is not computed again
  generalize hplan : World.run (plan none (some (Path.ofText "new"))) configured = planned
    at hfound
  generalize hrun : execute "0.1.0"
    (.generate [Path.ofText "p.yaml"] (some (Path.ofText "new")) none) configured = ran at houtcome
  obtain ⟨found, w₀⟩ := planned
  obtain ⟨outcome, w'⟩ := ran
  obtain rfl : found = .ok ({ header := "x" }, newRoot) := hfound
  obtain rfl : outcome = .exit 0 greetingsReport.toJson.document [] := houtcome
  have hdistinct : (greetings.map Batch.package).Nodup := by decide
  exact ⟨w₀, w', rfl, settingsApart_configured, rfl,
    render_agrees sound_configured hplan rfl linkfree_configured hload hdistinct
      avoids_configured settingsApart_configured hrun⟩

/-- The plan, what is read, how the run ends, and that settings are found after it. -/
theorem runs_belated :
    (World.run (plan none (some (Path.ofText "new"))) belated).1 = .ok ({ }, newRoot) ∧
      (World.run (loadPhrases (Path.ofText "p.yaml")) belated).1 = .ok [onlyBatch] ∧
      (execute "0.1.0" (.generate [Path.ofText "p.yaml"] (some (Path.ofText "new")) none)
        belated).1 = .exit 0 newReport.toJson.document [] ∧
      (World.run (settingsFor none) (execute "0.1.0"
        (.generate [Path.ofText "p.yaml"] (some (Path.ofText "new")) none) belated).2).1 =
          .ok ({ header := "x" }, some (Path.ofText "/w/lnk")) := by
  decide +kernel

/-- With these settings the text is another one. -/
theorem exists_headed : ∃ headed, sourceText onlyBatch { header := "x" } = .ok headed ∧
    sourceText onlyBatch { } ≠ .ok headed := by
  have hdiffers : sourceText onlyBatch { header := "x" } ≠ sourceText onlyBatch { } ∧
      (sourceText onlyBatch { header := "x" }).isOk = true := by decide +kernel
  generalize sourceText onlyBatch { header := "x" } = outcome at hdiffers ⊢
  cases outcome with
  | ok headed => exact ⟨headed, rfl, fun h => hdiffers.1 h.symm⟩
  | error fault => cases hdiffers.2

theorem linkfree_belated : belated.tree.LinkfreeBelow newRoot :=
  FileTree.linkfreeBelow_of_clear (by decide) (by decide) (by decide)

/-- Neither the phrase file nor the settings are written. -/
theorem avoids_belated : ∀ name ∈ (["p.yaml", "x.yaml"] : List Text),
    belated.tree.Avoids belated.directory (Path.ofText name)
      (WrittenFor belated.tree newRoot [onlyBatch]) := by
  intro name hname
  rcases List.mem_pair.mp hname with rfl | rfl
  · exact avoids_writtenFor (by decide) (by decide) (by decide)
  · exact avoids_writtenFor (by decide) (by decide) (by decide)

/-- Where nothing is found first and something then, another text is printed than is written,
although nothing that is read has been written. -/
theorem belated_disagrees : ∃ w₀ w',
    belated.Sound ∧
      World.run (plan none (some (Path.ofText "new"))) belated = (.ok ({ }, newRoot), w₀) ∧
      belated.tree.LinkfreeBelow newRoot ∧
      (World.run (loadPhrases (Path.ofText "p.yaml")) belated).1 = .ok [onlyBatch] ∧
      (∀ name ∈ (["p.yaml", "x.yaml"] : List Text),
        belated.tree.Avoids belated.directory (Path.ofText name)
          (WrittenFor belated.tree newRoot [onlyBatch])) ∧
      execute "0.1.0" (.generate [Path.ofText "p.yaml"] (some (Path.ofText "new")) none)
        belated = (.exit 0 newReport.toJson.document [], w') ∧
      ¬ PrintsStored "0.1.0" newRoot (Path.ofText "p.yaml") none onlyBatch w' := by
  obtain ⟨hfound, hload, houtcome, hlater⟩ := runs_belated
  generalize hplan : World.run (plan none (some (Path.ofText "new"))) belated = planned at hfound
  generalize hrun : execute "0.1.0"
    (.generate [Path.ofText "p.yaml"] (some (Path.ofText "new")) none) belated = ran
    at houtcome hlater
  obtain ⟨found, w₀⟩ := planned
  obtain ⟨outcome, w'⟩ := ran
  obtain rfl : found = .ok ({ }, newRoot) := hfound
  obtain rfl : outcome = .exit 0 newReport.toJson.document [] := houtcome
  have hwrote := wrote_of_generate hplan rfl linkfree_belated hload hrun
  obtain ⟨headed, hheaded, hdiffers⟩ := exists_headed
  have hfile := avoids_belated _ (List.mem_cons_self ..)
  exact ⟨w₀, w', ⟨FileTree.Sound.of_soundEntries (by decide), rfl⟩, rfl, linkfree_belated, hload,
    avoids_belated, rfl, hwrote.not_printsStored hload hfile (by decide)
      (List.mem_singleton_self onlyBatch) hlater hheaded hdiffers⟩

end Phrasebook.Workspace
