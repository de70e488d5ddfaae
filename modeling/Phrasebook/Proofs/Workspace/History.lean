/-
# Phrasebook.Proofs.Workspace.History -- any number of batches, one after the other

A `History` is what a writer has been asked so far, with every outcome, and the world it has come
to.  The headline is `run_lawful`: whatever the calls were and whatever stood in the way, the tree
can be read off the record.  A package that was ever written holds the text of its last successful
call and no temporary file; every other file is as it was; the only new directories lie on the way
to an attempted file; and a call refused for a name has changed nothing.

The proof carries `Invariant` from call to call.  It works because the files of different packages
never meet (`Phrasebook.Proofs.Target`), and because a host that has let a file be moved to its place
lets the next temporary file be removed.
-/
import Phrasebook.Proofs.Workspace.Emit

namespace Phrasebook.Workspace

open Java (isIdentifier isPackageName)

/-! ## Histories -/

/-- The batches handed to a writer with the outcome of each, and the world they have led to. -/
structure History where
  record : List (Batch × Except Fault Path) := []
  world : World

namespace History

/-- The history after one more batch. -/
def next (root : Path) (settings : Settings) (h : History) (batch : Batch) : History where
  record := h.record ++ [(batch, (World.run (emit root settings batch) h.world).1)]
  world := (World.run (emit root settings batch) h.world).2

/-- The history of a list of batches that starts in a world. -/
def run (root : Path) (settings : Settings) (start : World) (batches : List Batch) : History :=
  batches.foldl (next root settings) { world := start }

/-- The last batch of a package that was written. -/
def last? (h : History) (package : Text) : Option Batch :=
  (h.record.reverse.find? fun r => r.1.package = package && r.2.isOk).map Prod.fst

/-- The file of a batch was attempted: the batch was handed over and its names are legal. -/
def Attempted (h : History) (batch : Batch) : Prop :=
  batch ∈ h.record.map Prod.fst ∧ batch.check = .ok ()

variable {root : Path} {settings : Settings} {h : History} {batch : Batch}

theorem record_run_batches (root : Path) (settings : Settings) (start : World)
    (batches : List Batch) :
    (run root settings start batches).record.map Prod.fst = batches := by
  have hgen : ∀ h : History, (batches.foldl (next root settings) h).record.map Prod.fst =
      h.record.map Prod.fst ++ batches := by
    induction batches with
    | nil => simp
    | cons b bs ih =>
      intro h
      rw [List.foldl_cons, ih]
      simp [next]
  exact (hgen { world := start }).trans (List.nil_append batches)

/-- A call that fails leaves the last batches as they were. -/
theorem last?_next_of_error {fault : Fault}
    (ho : (World.run (emit root settings batch) h.world).1 = .error fault) (package : Text) :
    (next root settings h batch).last? package = h.last? package := by
  unfold last? next
  rw [ho]
  simp [Except.isOk, Except.toBool]

/-- A call that succeeds is the last one of its package. -/
theorem last?_next_of_ok {path : Path}
    (ho : (World.run (emit root settings batch) h.world).1 = .ok path) (package : Text) :
    (next root settings h batch).last? package =
      if batch.package = package then some batch else h.last? package := by
  unfold last? next
  rw [ho]
  by_cases hp : batch.package = package
  · simp [hp, Except.isOk, Except.toBool]
  · simp [hp]

/-- What was attempted stays attempted. -/
theorem Attempted.later {b : Batch} (hb : h.Attempted b) :
    (next root settings h batch).Attempted b :=
  ⟨by simp only [next, List.map_append]; exact List.mem_append_left _ hb.1, hb.2⟩

/-- A legal batch that is handed over is attempted. -/
theorem attempted_next (hl : batch.Legal) : (next root settings h batch).Attempted batch :=
  ⟨by simp [next], Batch.check_eq_ok_iff.mpr hl⟩

/-! ## What holds after every call -/

/-- The file of a package is there with the text of a batch, and its temporary sibling is not. -/
structure Stands (host : Host) (root : Path) (settings : Settings) (tree : FileTree)
    (package : Text) (batch : Batch) : Prop where
  of_package : batch.package = package
  legal : batch.Legal
  direct : tree.Direct (targetPath root package)
  content : ∃ text content, sourceText batch settings = .ok text ∧ text.encode? = some content ∧
    tree.at? (targetPath root package).parts = some (.file content)
  temporary : tree.at? (temporaryPath (targetPath root package)).parts = none
  removes : host.Removes (temporaryPath (targetPath root package))

/-- What relates the tree to the record and to the tree at the start. -/
structure Invariant (root : Path) (settings : Settings) (start : World) (h : History) :
    Prop where
  host : h.world.host = start.host
  linkless : h.world.tree.Linkless
  written : ∀ package batch, h.last? package = some batch →
    Stands start.host root settings h.world.tree package batch
  elsewhere : ∀ p, (∀ b, h.Attempted b → p ≠ (temporaryPath (targetPath root b.package)).parts) →
    (∀ package, (h.last? package).isSome → p ≠ (targetPath root package).parts) →
      h.world.tree.at? p = start.tree.at? p ∨
        start.tree.at? p = none ∧ h.world.tree.at? p = some .directory
  directories : ∀ p, h.world.tree.at? p = some .directory →
    start.tree.at? p = some .directory ∨
      ∃ b, h.Attempted b ∧ p <+: (packageDirectory root b.package).parts

theorem temporaryPath_targetPath (root : Path) (package : Text) :
    temporaryPath (targetPath root package) =
      (packageDirectory root package).child (sourceFileName ++ temporaryEnding) :=
  temporaryPath_child _

/-- A source file is nowhere a temporary file. -/
theorem target_ne_temporary (root : Path) (package other : Text) :
    (targetPath root package).parts ≠ (temporaryPath (targetPath root other)).parts := by
  rw [temporaryPath_targetPath]
  intro h
  have hlast := congrArg List.getLast? h
  simp only [targetPath, Path.child, List.getLast?_append, List.getLast?_singleton,
    Option.some_or, Option.some.injEq] at hlast
  exact absurd hlast (by decide)

/-- The file of a package outlives attempts to write that of another one. -/
theorem Stands.other {host : Host} {tree tree' : FileTree} {package other : Text}
    {written : Option ByteArray} (hs : Stands host root settings tree package batch)
    (hne : package ≠ other) (ho : isPackageName other = true)
    (ha : Attempt host root other written tree tree') :
    Stands host root settings tree' package batch := by
  have hp : isPackageName package = true := hs.of_package ▸ hs.legal.package
  have hdistinct : ∀ name, ((packageDirectory root package).child name).parts ≠
      ((packageDirectory root other).child name).parts :=
    fun name he => hne (child_injective hp ho he)
  refine ⟨hs.of_package, hs.legal, hs.direct.mono ha.directories, ?_, ?_, hs.removes⟩
  · obtain ⟨text, content, htext, henc, hat⟩ := hs.content
    refine ⟨text, content, htext, henc, ?_⟩
    rcases ha.elsewhere _ (hdistinct sourceFileName) (target_ne_temporary root package other) with
      he | ⟨hnone, -, -⟩
    · exact he.trans hat
    · cases hnone.symm.trans hat
  · -- The temporary file cannot be a directory on the way to another file: its name has a dot.
    have hnt := Ne.symm (target_ne_temporary root other package)
    have hnn : (temporaryPath (targetPath root package)).parts ≠
        (temporaryPath (targetPath root other)).parts := by
      rw [temporaryPath_targetPath, temporaryPath_targetPath]
      exact hdistinct _
    rcases ha.elsewhere _ hnt hnn with he | ⟨-, -, hpre⟩
    · exact he.trans hs.temporary
    · rw [temporaryPath_targetPath] at hpre
      exact absurd hpre (not_isPrefixOf_child isIdentifier_temporaryName hp ho)

/-- The file of a package outlives failed attempts to write it again. -/
theorem Stands.failed {host : Host} {tree tree' : FileTree} {package : Text}
    (hs : Stands host root settings tree package batch)
    (ha : Attempt host root package none tree tree') :
    Stands host root settings tree' package batch := by
  refine ⟨hs.of_package, hs.legal, hs.direct.mono ha.directories, ?_, ?_, hs.removes⟩
  · obtain ⟨text, content, htext, henc, hat⟩ := hs.content
    exact ⟨text, content, htext, henc, (ha.failed rfl).trans hat⟩
  · rcases ha.temporary with he | he | ⟨hkept, -⟩
    · exact he.trans hs.temporary
    · exact he
    · exact absurd hs.removes hkept

/-- A place that is none of the files in question keeps its relation to the start. -/
theorem elsewhere_trans {start tree tree' : FileTree} {p directory : Place}
    (h : tree.at? p = start.at? p ∨ start.at? p = none ∧ tree.at? p = some .directory)
    (h' : tree'.at? p = tree.at? p ∨
      tree.at? p = none ∧ tree'.at? p = some .directory ∧ p <+: directory) :
    tree'.at? p = start.at? p ∨ start.at? p = none ∧ tree'.at? p = some .directory := by
  rcases h' with he | ⟨hnone, hdir, -⟩
  · rwa [he]
  · rcases h with he | ⟨-, hdir'⟩
    · exact Or.inr ⟨he ▸ hnone, hdir⟩
    · rw [hnone] at hdir'
      cases hdir'

/-- Directories that an attempt adds lie on the way to its file. -/
theorem directory_of_attempt {host : Host} {package : Text} {written : Option ByteArray}
    {tree tree' : FileTree} (ha : Attempt host root package written tree tree') {p : Place}
    (hd : tree'.at? p = some .directory) :
    tree.at? p = some .directory ∨ p <+: (packageDirectory root package).parts := by
  by_cases ht : p = (targetPath root package).parts
  · subst ht
    cases written with
    | none => exact Or.inl ((ha.failed rfl).symm.trans hd)
    | some content =>
      rw [(ha.succeeded content rfl).1] at hd
      cases hd
  by_cases htmp : p = (temporaryPath (targetPath root package)).parts
  · subst htmp
    rcases ha.temporary with he | he | ⟨-, content, he⟩
    · exact Or.inl (he.symm.trans hd)
    · cases he.symm.trans hd
    · cases he.symm.trans hd
  rcases ha.elsewhere p ht htmp with he | ⟨-, -, hpre⟩
  · exact Or.inl (he.symm.trans hd)
  · exact Or.inr hpre

/-! ## One more call -/

section Step

variable {start : World}

/-- The directories of the invariant, after an attempt. -/
theorem Invariant.directories_step {written : Option ByteArray} {h' : History}
    (hi : Invariant root settings start h) (hh : ∀ b, h.Attempted b → h'.Attempted b)
    (hb : h'.Attempted batch)
    (ha : Attempt start.host root batch.package written h.world.tree h'.world.tree) (p : Place)
    (hd : h'.world.tree.at? p = some .directory) :
    start.tree.at? p = some .directory ∨
      ∃ b, h'.Attempted b ∧ p <+: (packageDirectory root b.package).parts := by
  rcases directory_of_attempt ha hd with hd | hpre
  · rcases hi.directories p hd with hd | ⟨b, hb, hpre⟩
    · exact Or.inl hd
    · exact Or.inr ⟨b, hh b hb, hpre⟩
  · exact Or.inr ⟨batch, hb, hpre⟩

/-- A call leaves the host. -/
theorem host_next : (next root settings h batch).world.host = h.world.host :=
  (emit_staying root settings batch h.world).1

/-- A call that leaves the world as it is keeps the invariant. -/
theorem Invariant.refused (hi : Invariant root settings start h) {fault : Fault}
    (ho : World.run (emit root settings batch) h.world = (.error fault, h.world)) :
    Invariant root settings start (next root settings h batch) := by
  have hworld : (next root settings h batch).world = h.world := by
    rw [next, ho]
  have hlast := last?_next_of_error (congrArg Prod.fst ho)
  refine ⟨hworld ▸ hi.host, hworld ▸ hi.linkless, ?_, ?_, ?_⟩
  · intro package b hb
    rw [hworld]
    rw [hlast] at hb
    exact hi.written package b hb
  · intro p htmp htarget
    rw [hworld]
    refine hi.elsewhere p (fun b hb => htmp b hb.later) fun package hs => htarget package ?_
    rwa [hlast]
  · intro p hd
    rw [hworld] at hd
    rcases hi.directories p hd with hd | ⟨b, hb, hpre⟩
    · exact Or.inl hd
    · exact Or.inr ⟨b, hb.later, hpre⟩

/-- A call whose attempt fails keeps the invariant. -/
theorem Invariant.failed (hi : Invariant root settings start h) (hlegal : batch.Legal)
    {fault : Fault} {w' : World}
    (ho : World.run (emit root settings batch) h.world = (.error fault, w'))
    (ha : Attempt start.host root batch.package none h.world.tree w'.tree) :
    Invariant root settings start (next root settings h batch) := by
  obtain rfl : (next root settings h batch).world = w' := by
    rw [next, ho]
  have hlast := last?_next_of_error (congrArg Prod.fst ho)
  refine ⟨host_next.trans hi.host, ha.linkless, ?_, ?_,
    hi.directories_step (fun _ hb => hb.later) (attempted_next hlegal) ha⟩
  · intro package b hb
    rw [hlast] at hb
    by_cases hp : package = batch.package
    · subst hp
      exact (hi.written _ b hb).failed ha
    · exact (hi.written package b hb).other hp hlegal.package ha
  · intro p htmp htarget
    have hbefore := hi.elsewhere p (fun b hb => htmp b hb.later) (fun package hs => by
      refine htarget package ?_
      rwa [hlast])
    by_cases ht : p = (targetPath root batch.package).parts
    · rw [ht, ha.failed rfl, ← ht]
      exact hbefore
    · exact elsewhere_trans hbefore (ha.elsewhere p ht (htmp batch (attempted_next hlegal)))

/-- A call that writes its file keeps the invariant, its batch becoming the last of its package. -/
theorem Invariant.succeeded (hi : Invariant root settings start h) (hlegal : batch.Legal)
    {path : Path} {w' : World} {text : Text} {content : ByteArray}
    (htext : sourceText batch settings = .ok text) (henc : text.encode? = some content)
    (ho : World.run (emit root settings batch) h.world = (.ok path, w'))
    (ha : Attempt start.host root batch.package (some content) h.world.tree w'.tree) :
    Invariant root settings start (next root settings h batch) := by
  obtain rfl : (next root settings h batch).world = w' := by
    rw [next, ho]
  have hlast := last?_next_of_ok (congrArg Prod.fst ho)
  refine ⟨host_next.trans hi.host, ha.linkless, ?_, ?_,
    hi.directories_step (fun _ hb => hb.later) (attempted_next hlegal) ha⟩
  · intro package b hb
    rw [hlast] at hb
    by_cases hp : batch.package = package
    · rw [if_pos hp] at hb
      obtain rfl := Option.some.inj hb
      subst hp
      obtain ⟨hat, hnone, hdirect, hremoves⟩ := ha.succeeded content rfl
      exact ⟨rfl, hlegal, hdirect, ⟨text, content, htext, henc, hat⟩, hnone, hremoves⟩
    · rw [if_neg hp] at hb
      exact (hi.written package b hb).other (Ne.symm hp) hlegal.package ha
  · intro p htmp htarget
    have hbefore := hi.elsewhere p (fun b hb => htmp b hb.later) (fun package hs => by
      refine htarget package ?_
      rw [hlast]
      split
      · rfl
      · exact hs)
    refine elsewhere_trans hbefore (ha.elsewhere p ?_ (htmp batch (attempted_next hlegal)))
    refine htarget batch.package ?_
    rw [hlast, if_pos rfl]
    rfl

/-- One more call keeps the invariant, however it ends. -/
theorem Invariant.step (hr : root.Plain) (hv : settings.validate = true)
    (hi : Invariant root settings start h) (batch : Batch) :
    Invariant root settings start (next root settings h batch) := by
  have hemit := run_emit hr hv hi.linkless batch
  rw [hi.host] at hemit
  split at hemit
  · next path w' heq =>
    obtain ⟨hlegal, text, content, htext, henc, ha⟩ := hemit
    exact hi.succeeded hlegal htext henc heq ha
  · next fault w' heq =>
    rcases hemit with rfl | ⟨hlegal, -, ha⟩
    · exact hi.refused heq
    · exact hi.failed hlegal heq ha

end Step

/-- The invariant holds after any number of calls. -/
theorem invariant_run (hr : root.Plain) (hv : settings.validate = true) {start : World}
    (hl : start.tree.Linkless) (batches : List Batch) :
    Invariant root settings start (run root settings start batches) := by
  -- The fold starts from the empty record; the induction needs any history that has the invariant.
  have hgen : ∀ h, Invariant root settings start h →
      Invariant root settings start (batches.foldl (next root settings) h) := by
    induction batches with
    | nil => exact fun h hi => hi
    | cons b bs ih => exact fun h hi => ih _ (hi.step hr hv b)
  refine hgen _ ⟨rfl, hl, ?_, ?_, ?_⟩
  · intro package b hb
    cases hb
  · exact fun p _ _ => Or.inl rfl
  · exact fun p hd => Or.inl hd

/-! ## The history law -/

/-- What a list of calls leaves behind. -/
structure Lawful (root : Path) (settings : Settings) (start : World) (batches : List Batch) :
    Prop where
  /-- A package that was ever written holds the text of its last successful call, and no temporary
  file stands beside it. -/
  written : ∀ package batch, (run root settings start batches).last? package = some batch →
    ∃ text content, sourceText batch settings = .ok text ∧ text.encode? = some content ∧
      (run root settings start batches).world.tree.at? (targetPath root package).parts =
        some (.file content) ∧
      (run root settings start batches).world.tree.read start.directory
        (targetPath root package) = .ok content ∧
      (run root settings start batches).world.tree.at?
        (temporaryPath (targetPath root package)).parts = none
  /-- Every other file that is no temporary sibling of an attempted one is as it was, and there is
  no file that was not there. -/
  kept : ∀ place content,
    (∀ b ∈ batches, b.check = .ok () →
      place ≠ (temporaryPath (targetPath root b.package)).parts) →
    (∀ package, ((run root settings start batches).last? package).isSome →
      place ≠ (targetPath root package).parts) →
    ((run root settings start batches).world.tree.at? place = some (.file content) ↔
      start.tree.at? place = some (.file content))
  /-- A new directory is on the way to the parent of an attempted file. -/
  directories : ∀ place,
    (run root settings start batches).world.tree.at? place = some .directory →
      start.tree.at? place = some .directory ∨
        ∃ b ∈ batches, b.check = .ok () ∧ place <+: (targetPath root b.package).parent.parts
  /-- A call refused for a name changes nothing at all. -/
  refused : ∀ before batch after fault, batches = before ++ batch :: after →
    (World.run (emit root settings batch) (run root settings start before).world).1 =
      .error (.user (.name fault)) →
    (World.run (emit root settings batch) (run root settings start before).world).2 =
      (run root settings start before).world

/-- Every list of calls is lawful, from any tree without links, under any output root that is
absolute and has no `..`, with any batches. -/
theorem run_lawful (rootText : Text) (settings : Settings) (start : World) (batches : List Batch)
    (habsolute : (Path.ofText rootText).isAbsolute = true)
    (hup : Path.up ∉ (Path.ofText rootText).parts) (hvalidate : settings.validate = true)
    (hlinkless : start.tree.Linkless) :
    Lawful (Path.ofText rootText) settings start batches := by
  have hr := plain_ofText habsolute hup
  have hi := invariant_run hr hvalidate hlinkless batches
  have hattempted : ∀ b, (run (Path.ofText rootText) settings start batches).Attempted b →
      b ∈ batches ∧ b.check = .ok () := by
    intro b hb
    rw [Attempted, record_run_batches] at hb
    exact hb
  refine ⟨?_, ?_, ?_, ?_⟩
  · intro package batch hlast
    have hs := hi.written package batch hlast
    obtain ⟨text, content, htext, henc, hat⟩ := hs.content
    have hplain : (targetPath (Path.ofText rootText) package).Plain :=
      (replaceable_source (plain_packageDirectory hr (hs.of_package ▸ hs.legal.package))).plain
    exact ⟨text, content, htext, henc, hat,
      FileTree.read_of_direct hi.linkless hplain hs.direct hat, hs.temporary⟩
  · intro place content htmp htarget
    have h := hi.elsewhere place
      (fun b hb => htmp b (hattempted b hb).1 (hattempted b hb).2) htarget
    rcases h with he | ⟨hnone, hdirectory⟩
    · rw [he]
    · rw [hnone, hdirectory]
      simp
  · intro place hd
    rcases hi.directories place hd with hd | ⟨b, hb, hpre⟩
    · exact Or.inl hd
    · refine Or.inr ⟨b, (hattempted b hb).1, (hattempted b hb).2, ?_⟩
      rwa [targetPath, Path.parent_child]
  · -- Of the two ways to fail, only the one that leaves the world alone gives a name fault.
    intro before batch after fault _ hfault
    have hemit := run_emit hr hvalidate (invariant_run hr hvalidate hlinkless before).linkless batch
    split at hemit
    · next path w' heq =>
      rw [heq] at hfault
      cases hfault
    · next fault' w' heq =>
      rw [heq] at hfault ⊢
      rcases hemit with hsame | ⟨-, hno, -⟩
      · exact hsame
      · exact absurd (Except.error.inj hfault) (hno fault)

/-- A world in which a file stands where the package `a` needs a directory. -/
def blockedWorld : World where
  tree := FileTree.put { } ["out", "a"] (.file .empty)

/-- Lawful calls into a blocked world: one is written, one is in the way of the file, and one has a
reserved word as its package. -/
theorem run_lawful_blocked :
    Lawful (Path.ofText "/out") { } blockedWorld [⟨"b", []⟩, ⟨"a", []⟩, ⟨"int", []⟩] :=
  run_lawful "/out" { } blockedWorld _ (by decide) (by decide) rfl
    (FileTree.Linkless.put_file (fun place _ => by simp [FileTree.at?]) (by decide) .empty)

end History

end Phrasebook.Workspace
