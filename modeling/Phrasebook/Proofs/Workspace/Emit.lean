/-
# Phrasebook.Proofs.Workspace.Emit -- what writing one batch does to a tree

Writing a batch makes the directories of its package and then replaces its source file, and either
part may fail against what stands in the tree.  `Attempt` collects what holds of the tree however
it ends.  A batch that is refused for a name never gets so far: the world is the same.  The host and the
working directory are the same in any case.
-/
import Phrasebook.Proofs.Target
import Phrasebook.Proofs.Validation
import Phrasebook.Proofs.Workspace.Replace

namespace Phrasebook.Workspace

open Java (isIdentifier isPackageName)

/-! ## Generating the text -/

/-- Text is generated only from legal batches, if names are checked. -/
theorem legal_of_sourceText {batch : Batch} {settings : Settings} {text : Text}
    (hv : settings.validate = true) (h : sourceText batch settings = .ok text) : batch.Legal := by
  obtain ⟨file, hfile, -⟩ := bind_eq_ok_iff.mp h
  unfold sourceFile buildFile at hfile
  rw [if_pos hv] at hfile
  obtain ⟨u, hcheck, -⟩ := bind_eq_ok_iff.mp hfile
  cases hc : batch.check with
  | ok _ => exact Batch.check_eq_ok_iff.mp hc
  | error fault =>
    rw [hc] at hcheck
    cases hcheck

/-- Generating a text tells about its steps and changes no tree; a fault changes nothing at all. -/
theorem run_generate (batch : Batch) (settings : Settings) (w : World) :
    match sourceText batch settings with
    | .ok text => ∃ messages,
        World.run (generate batch settings) w = (.ok text, { w with messages })
    | .error fault =>
      World.run (generate batch settings) w = (.error (Fault.ofSource fault), w) := by
  unfold generate
  cases sourceText batch settings with
  | error fault => rfl
  | ok text => exact ⟨_, rfl⟩

/-! ## Writing the file -/

/-- What an attempt to write the source file of a package does to a tree; `written` is its content
if the attempt succeeds. -/
structure Attempt (host : Host) (root : Path) (package : Text) (written : Option ByteArray)
    (tree tree' : FileTree) : Prop where
  elsewhere : ∀ p, p ≠ (targetPath root package).parts →
    p ≠ (temporaryPath (targetPath root package)).parts →
      tree'.at? p = tree.at? p ∨
        tree.at? p = none ∧ tree'.at? p = some .directory ∧
          p <+: (packageDirectory root package).parts
  temporary :
    tree'.at? (temporaryPath (targetPath root package)).parts =
        tree.at? (temporaryPath (targetPath root package)).parts ∨
      tree'.at? (temporaryPath (targetPath root package)).parts = none ∨
      ¬ host.Removes (temporaryPath (targetPath root package)) ∧
        ∃ content, tree'.at? (temporaryPath (targetPath root package)).parts = some (.file content)
  failed : written = none →
    tree'.at? (targetPath root package).parts = tree.at? (targetPath root package).parts
  succeeded : ∀ content, written = some content →
    tree'.at? (targetPath root package).parts = some (.file content) ∧
      tree'.at? (temporaryPath (targetPath root package)).parts = none ∧
      tree'.Direct (targetPath root package) ∧
      host.Removes (temporaryPath (targetPath root package))
  directories : ∀ p, tree.at? p = some .directory → tree'.at? p = some .directory
  linkless : tree'.Linkless

/-- The name of a source file is no segment of a package. -/
theorem isIdentifier_sourceFileName : isIdentifier sourceFileName = false := by decide

/-- Nor is the name of its temporary sibling. -/
theorem isIdentifier_temporaryName :
    isIdentifier (sourceFileName ++ temporaryEnding) = false := by decide

/-- Directories and then a replacement make up an attempt. -/
theorem attempt_of_replaced {host : Host} {root : Path} {package : Text}
    {written : Option ByteArray} {tree middle tree' : FileTree} (hp : isPackageName package = true) (hl : tree.Linkless)
    (hg : Grown (packageDirectory root package).parts tree middle)
    (hr : Replaced host (targetPath root package) written middle tree') :
    Attempt host root package written tree tree' := by
  -- neither of the two files stands on the way to its own directory
  have hstay : ∀ name, isIdentifier name = false →
      middle.at? ((packageDirectory root package).child name).parts =
        tree.at? ((packageDirectory root package).child name).parts := by
    intro name hn
    rcases hg ((packageDirectory root package).child name).parts with he | ⟨-, -, hpre⟩
    · exact he
    · exact absurd hpre (not_isPrefixOf_child hn hp hp)
  have htarget : middle.at? (targetPath root package).parts =
      tree.at? (targetPath root package).parts := hstay _ isIdentifier_sourceFileName
  have htemp : middle.at? (temporaryPath (targetPath root package)).parts =
      tree.at? (temporaryPath (targetPath root package)).parts := by
    rw [targetPath, temporaryPath_child]
    exact hstay _ isIdentifier_temporaryName
  refine ⟨?_, ?_, ?_, ?_, ?_, ?_⟩
  · intro p hpt hptmp
    rw [hr.others p hpt hptmp]
    exact hg p
  · rw [← htemp]
    exact hr.temporary.imp_right And.right
  · intro hw
    rw [hr.failed hw, htarget]
  · intro content hw
    exact (hr.succeeded content hw).2
  · intro p hd
    exact hr.keeps_directories (hg.keeps hd)
  · exact hr.linkless (hg.linkless hl)

variable {root : Path} {settings : Settings} {w : World}

/-- The world after one more batch: either names were refused and nothing has happened, or the
file of a legal batch was attempted. -/
theorem run_emit (hr : root.Plain) (hv : settings.validate = true) (hl : w.tree.Linkless)
    (batch : Batch) :
    match World.run (emit root settings batch) w with
    | (.ok _, w') => batch.Legal ∧ ∃ text content, sourceText batch settings = .ok text ∧
        text.encode? = some content ∧
          Attempt w.host root batch.package (some content) w.tree w'.tree
    | (.error fault, w') => w' = w ∨
        batch.Legal ∧ NoNameFault fault ∧
          Attempt w.host root batch.package none w.tree w'.tree := by
  unfold emit
  rw [World.run_bind]
  have hgenerate := run_generate batch settings w
  cases htext : sourceText batch settings with
  | error fault =>
    rw [htext] at hgenerate
    rw [hgenerate]
    exact Or.inl rfl
  | ok text =>
    rw [htext] at hgenerate
    obtain ⟨messages, hrun⟩ := hgenerate
    have hlegal := legal_of_sourceText hv htext
    have hplain := plain_packageDirectory hr hlegal.package
    have hparent : (targetPath root batch.package).parent = packageDirectory root batch.package :=
      Path.parent_child _ _
    rw [hrun]
    simp only [hparent]
    rw [World.run_bind, World.run_liftM]
    obtain ⟨middle, hmiddle, hgrown⟩ :=
      ensureDirectories_grows (w := { w with messages }) hl hplain
    rw [hmiddle]
    cases (ensureDirectories (m := StateM World) (packageDirectory root batch.package)
      { w with messages }).1 with
    | error e =>
      refine Or.inr ⟨hlegal, noNameFault_output _ e, ?_⟩
      exact attempt_of_replaced hlegal.package hl hgrown (.refl w.host _ middle)
    | ok _ =>
      simp only
      rw [World.run_bind]
      have hreplaced := replaceFile_replaced
        (w := { w with tree := middle, messages })
        (hgrown.linkless hl) (replaceable_source hplain) text
      rw [← targetPath] at hreplaced
      split at hreplaced
      · next w' heq =>
        rw [heq]
        obtain ⟨content, henc, hrep⟩ := hreplaced
        exact ⟨hlegal, text, content, rfl, henc, attempt_of_replaced hlegal.package hl hgrown hrep⟩
      · next fault w' heq =>
        rw [heq]
        exact Or.inr ⟨hlegal, hreplaced.1,
          attempt_of_replaced hlegal.package hl hgrown hreplaced.2⟩

/-! ## What stays -/

theorem ensureDirectories_staying (path : Path) : World.Staying
    (liftM (ensureDirectories (m := StateM World) path) :
      Task (StateM World) (Except FileError Unit)) := by
  intro w
  obtain ⟨tree, hw, -⟩ := ensureDirectories_relates (w := w) path (R := fun _ _ _ => True)
    (fun _ _ => trivial) (fun _ _ _ _ _ _ => trivial) (fun _ _ _ _ => trivial)
    (fun _ _ _ _ _ => trivial)
  rw [World.run_liftM, hw]
  exact ⟨rfl, rfl⟩

theorem discard_staying (path : Path) : World.Staying (discard path) := by
  refine (World.Staying.change (.remove path)).bind fun outcome => ?_
  split
  · exact .pure _
  · exact .pure _
  · split
    · exact .tell _ _
    · exact .throw _

theorem replaceFile_staying (path : Path) (text : Text) :
    World.Staying (replaceFile path text) := by
  have hgivesUp : ∀ fault, World.Staying (discard (temporaryPath path) >>= fun _ =>
      (throw fault : Task (StateM World) Unit)) :=
    fun fault => (discard_staying _).bind fun _ => .throw fault
  refine (World.Staying.change (.write _ _)).bind fun written => ?_
  cases written with
  | error e => exact hgivesUp _
  | ok _ =>
    simp only
    split
    · exact hgivesUp _
    · refine (World.Staying.change (.rename _ _)).bind fun moved => ?_
      cases moved with
      | error e => exact hgivesUp _
      | ok _ => exact .pure _

theorem generate_staying (batch : Batch) (settings : Settings) :
    World.Staying (generate batch settings) := by
  intro w
  have hgenerate := run_generate batch settings w
  split at hgenerate
  · obtain ⟨messages, hrun⟩ := hgenerate
    rw [hrun]
    exact ⟨rfl, rfl⟩
  · rw [hgenerate]
    exact ⟨rfl, rfl⟩

/-- Writing a batch changes neither the host nor the working directory. -/
theorem emit_staying (root : Path) (settings : Settings) (batch : Batch) :
    World.Staying (emit root settings batch) := by
  refine (generate_staying batch settings).bind fun text => ?_
  refine (ensureDirectories_staying _).bind fun made => ?_
  cases made with
  | error e => exact .throw _
  | ok _ =>
    exact (replaceFile_staying _ text).bind fun _ => (World.Staying.tell _ _).bind fun _ => .pure _

end Phrasebook.Workspace
