/-
# Phrasebook.Proofs.Workspace.Batches -- writing one batch after another

A run writes the batches of its files in order.  What it has written up to some moment is described
by `Wrote`: everything else is kept, and a batch is stored unless a later one has its package.  The
description of a run is that of its first part followed by that of the rest, so the whole is
assembled from the single batches.

Files that are read in between may themselves depend on what was written before, as a path may lead
through a directory that is new.  `batchesRead` is what a run reads, each file in the world that it
finds.
-/
import Mathlib.Data.List.Forall2
import Phrasebook.Proofs.Workspace.Again
import Phrasebook.Proofs.Workspace.Written

namespace Phrasebook.Workspace

open FileTree (Kept SameLinks)

variable {root : Path} {settings : Settings} {w w₁ w' : World} {batches others : List Batch}

/-! ## What has been written -/

/-- A place that is written for some of the batches. -/
def WrittenFor (tree : FileTree) (root : Path) (batches : List Batch) (p : Place) : Prop :=
  ∃ b ∈ batches, WrittenPlace tree root b.package p

/-- Where no links stand on the ways, a file that is none of those to be written avoids them. -/
theorem avoids_writtenFor {tree : FileTree} {directory : Place} {path : Path}
    (hc : tree.Clear .target (FileTree.startOf directory path) path.parts)
    (hp : PlainParts path.parts)
    (h : ∀ b ∈ batches, ∀ t ∈ [targetPath root b.package, temporaryPath (targetPath root b.package)],
      PlainParts t.parts ∧ tree.Clear .target [] t.parts ∧
        FileTree.startOf directory path ++ path.parts ≠ t.parts) :
    tree.Avoids directory path (WrittenFor tree root batches) := by
  refine FileTree.avoids_of_clear hc hp ?_
  rintro ⟨b, hb, hwritten⟩
  obtain ⟨hplain, hclear, hne⟩ := h b hb _ (List.mem_cons_self ..)
  obtain ⟨hplain', hclear', hne'⟩ := h b hb _ (List.mem_cons_of_mem _ (List.mem_cons_self ..))
  rcases writtenPlace_clear hplain hplain' hclear hclear' hwritten with heq | heq
  · exact hne heq
  · exact hne' heq

/-- What has become of a world in which batches were written in order. -/
structure Wrote (root : Path) (settings : Settings) (batches : List Batch) (w w' : World) :
    Prop where
  host : w'.host = w.host
  directory : w'.directory = w.directory
  legal : ∀ b ∈ batches, b.Legal
  site : batches ≠ [] → ∃ base, w'.tree.Site root base
  kept : Kept (WrittenFor w.tree root batches) w.tree w'.tree
  stored : ∀ before b after, batches = before ++ b :: after →
    (∀ later ∈ after, later.package ≠ b.package) → Stored root settings w'.tree w'.directory b

namespace Wrote

/-- Nothing has been written where only messages have changed. -/
theorem nothing (messages : List Message) :
    Wrote root settings [] w { w with messages } where
  host := rfl
  directory := rfl
  legal := fun b hb => nomatch hb
  site := fun h => absurd rfl h
  kept := Kept.refl _ _
  stored := fun before b after h => absurd h (by simp)

/-- One batch has been written. -/
theorem single {batch : Batch} {path : Path} (hv : settings.validate = true)
    (ha : root.isAbsolute = true) (hl : w.tree.LinkfreeBelow root)
    (h : World.run (emit root settings batch) w = (.ok path, w')) :
    path = targetPath root batch.package ∧ Wrote root settings [batch] w w' := by
  obtain ⟨hlegal, hpath, hhost, hdirectory, hsite, hkept, hstored⟩ := emit_stores hv ha hl h
  refine ⟨hpath, hhost, hdirectory, ?_, fun _ => hsite, ?_, ?_⟩
  · intro b hb
    rwa [List.mem_singleton.mp hb]
  · exact hkept.mono fun p hp => ⟨batch, List.mem_singleton_self batch, hp⟩
  · intro before b after hsplit _
    have hmem : b ∈ [batch] := hsplit ▸ List.mem_append_right before (List.mem_cons_self ..)
    rwa [List.mem_singleton.mp hmem]

/-- Of a batch that was stored before, the file stays while batches of other packages are written. -/
theorem keeps_stored {b : Batch} (h : Wrote root settings others w w') (hb : b.Legal)
    (hsite : ∃ base, w.tree.Site root base)
    (hne : ∀ later ∈ others, later.package ≠ b.package)
    (hstored : Stored root settings w.tree w.directory b) :
    Stored root settings w'.tree w'.directory b := by
  obtain ⟨base, hsite⟩ := hsite
  rw [h.directory]
  refine hstored.kept ?_ h.kept
  rintro p hp ⟨later, hlater, hwritten⟩
  exact avoids_target hsite hb.package (h.legal later hlater).package
    (hne later hlater).symm w.directory p hp hwritten

/-- What was written first and what was written then. -/
theorem append (h : Wrote root settings batches w w₁) (h' : Wrote root settings others w₁ w') :
    Wrote root settings (batches ++ others) w w' where
  host := h'.host.trans h.host
  directory := h'.directory.trans h.directory
  legal := fun b hb => (List.mem_append.mp hb).elim (h.legal b) (h'.legal b)
  site := by
    intro hne
    by_cases ho : others = []
    · -- the last of the first batches has left its site, which the rest keeps
      rw [ho, List.append_nil] at hne
      obtain ⟨base, hsite⟩ := h.site hne
      exact ⟨base, hsite.kept h'.kept⟩
    · exact h'.site ho
  kept := by
    refine (h.kept.mono ?_).trans (h'.kept.mono ?_)
    · rintro p ⟨b, hb, hp⟩
      exact ⟨b, List.mem_append_left _ hb, hp⟩
    · rintro p ⟨b, hb, hp⟩
      exact ⟨b, List.mem_append_right _ hb, hp.congr h.kept.links.symm⟩
  stored := by
    intro before b after hsplit hlast
    rcases List.append_eq_append_iff.mp hsplit with ⟨middle, hb, ho⟩ | ⟨middle, hb, ho⟩
    · exact h'.stored middle b after ho hlast
    · cases middle with
      | nil => exact h'.stored [] b after ho.symm hlast
      | cons c rest =>
        obtain ⟨rfl, rfl⟩ := List.cons.inj ho
        have hmem : b ∈ batches := hb ▸ List.mem_append_right before (List.mem_cons_self ..)
        refine h'.keeps_stored (h.legal b hmem) (h.site (List.ne_nil_of_mem hmem)) ?_ ?_
        · exact fun later hm => hlast later (List.mem_append_right rest hm)
        · exact h.stored before b rest hb fun later hm => hlast later (List.mem_append_left _ hm)

/-- The batches of a file that is not written are read again, whatever has been told meanwhile. -/
theorem loadPhrases_eq {file : Path} (h : Wrote root settings batches w w')
    (hload : (World.run (loadPhrases file) w).1 = .ok batches)
    (hfile : w.tree.Avoids w.directory file (WrittenFor w.tree root batches))
    (messages : List Message) :
    (World.run (loadPhrases file) { w' with messages }).1 = .ok batches := by
  obtain ⟨_, hagain⟩ := loadPhrases_kept hload h.host h.directory h.kept hfile
  exact loadPhrases_told (congrArg Prod.fst hagain) messages

/-- Of batches with different packages each is stored. -/
theorem stored_of_distinct {batch : Batch} (h : Wrote root settings batches w w')
    (hdistinct : (batches.map Batch.package).Nodup) (hmem : batch ∈ batches) :
    Stored root settings w'.tree w'.directory batch := by
  obtain ⟨before, after, hsplit⟩ := List.append_of_mem hmem
  refine h.stored before batch after hsplit fun later hlater heq => ?_
  rw [hsplit, List.map_append, List.map_cons] at hdistinct
  have hfresh := (List.nodup_cons.mp (List.nodup_append.mp hdistinct).2.1).1
  exact hfresh (List.mem_map.mpr ⟨later, hlater, heq⟩)

end Wrote

/-! ## The batches of a file -/

/-- The entry of a batch in the report. -/
def entryOf (root : Path) (batch : Batch) : WrittenFile :=
  ⟨batch.package, (targetPath root batch.package).text, batch.phrases.length⟩

/-- Writes a batch and adds it to the report. -/
def emitInto (root : Path) (settings : Settings) (report : Report) (batch : Batch) :
    Task (StateM World) Report := do
  let path ← emit root settings batch
  return report.add batch path.text

theorem emitInto_eq_ok {report report' : Report} {batch : Batch}
    (h : World.run (emitInto root settings report batch) w = (.ok report', w')) :
    ∃ path, World.run (emit root settings batch) w = (.ok path, w') ∧
      report' = report.add batch path.text := by
  unfold emitInto at h
  rw [World.run_bind] at h
  cases hemit : World.run (emit root settings batch) w with
  | mk outcome w₁ =>
    rw [hemit] at h
    cases outcome with
    | error fault => cases h
    | ok path =>
      obtain ⟨hreport, rfl⟩ := Prod.mk.inj h
      exact ⟨path, rfl, (Except.ok.inj hreport).symm⟩

/-- The world after batches have been written. -/
def worldAfter (root : Path) (settings : Settings) (batches : List Batch) (w : World) : World :=
  batches.foldl (fun w batch => (World.run (emit root settings batch) w).2) w

/-- Batches that have been written one after the other are reported in their order. -/
theorem wrote_of_foldlM (hv : settings.validate = true) (ha : root.isAbsolute = true)
    {report report' : Report} (hl : w.tree.LinkfreeBelow root)
    (h : World.run (batches.foldlM (emitInto root settings) report) w = (.ok report', w')) :
    report' = { report with files := report.files ++ batches.map (entryOf root) } ∧
      w' = worldAfter root settings batches w ∧ Wrote root settings batches w w' := by
  induction batches generalizing report w with
  | nil =>
    obtain ⟨hreport, rfl⟩ := Prod.mk.inj h
    obtain rfl := Except.ok.inj hreport
    exact ⟨by simp, rfl, Wrote.nothing w.messages⟩
  | cons batch batches ih =>
    rw [List.foldlM_cons, World.run_bind] at h
    cases hfirst : World.run (emitInto root settings report batch) w with
    | mk outcome w₁ =>
      rw [hfirst] at h
      cases outcome with
      | error fault => cases h
      | ok report₁ =>
        obtain ⟨path, hemit, rfl⟩ := emitInto_eq_ok hfirst
        obtain ⟨rfl, hwrote⟩ := Wrote.single hv ha hl hemit
        obtain ⟨rfl, hafter, hrest⟩ := ih (hl.congr hwrote.kept.links) h
        have hstep : worldAfter root settings (batch :: batches) w =
            worldAfter root settings batches w₁ := by
          simp only [worldAfter, List.foldl_cons, hemit]
        exact ⟨by simp [Report.add, entryOf], hafter.trans hstep.symm, hwrote.append hrest⟩

/-! ## The batches of several files -/

/-- The batches that a run reads from its files, each file being read where the batches before it
have been written. -/
def batchesRead (root : Path) (settings : Settings) : List Path → World → List (List Batch)
  | [], _ => []
  | file :: files, w =>
    match World.run (loadPhrases file) w with
    | (.ok batches, w') =>
      batches :: batchesRead root settings files (worldAfter root settings batches w')
    | (.error _, _) => []

/-- A file that has been generated was read, and its batches were written. -/
theorem generateFile_eq_ok {report report' : Report} {file : Path}
    (h : World.run (generateFile root settings report file) w = (.ok report', w')) :
    ∃ batches messages,
      World.run (loadPhrases file) w = (.ok batches, { w with messages }) ∧
        World.run (batches.foldlM (emitInto root settings) report) { w with messages } =
          (.ok report', w') := by
  obtain ⟨messages, hquiet⟩ := (asks_loadPhrases file).quiet w
  have hrun : generateFile root settings report file =
      loadPhrases file >>= fun batches => batches.foldlM (emitInto root settings) report := rfl
  rw [hrun, World.run_bind, hquiet] at h
  cases houtcome : (World.run (loadPhrases file) w).1 with
  | error fault =>
    rw [houtcome] at h
    cases h
  | ok batches =>
    rw [houtcome] at h hquiet
    exact ⟨batches, messages, hquiet, h⟩

/-- Files that have been generated one after the other leave the batches read from them, and can
still be read if none of them was written. -/
theorem wrote_of_files (hv : settings.validate = true) (ha : root.isAbsolute = true)
    {files : List Path} {report report' : Report} (hl : w.tree.LinkfreeBelow root)
    (h : World.run (files.foldlM (generateFile root settings) report) w = (.ok report', w')) :
    report' = { report with files :=
        report.files ++ (batchesRead root settings files w).flatten.map (entryOf root) } ∧
      Wrote root settings (batchesRead root settings files w).flatten w w' ∧
      ((∀ file ∈ files, w.tree.Avoids w.directory file
          (WrittenFor w.tree root (batchesRead root settings files w).flatten)) →
        List.Forall₂ (fun file batches => (World.run (loadPhrases file) w').1 = .ok batches)
          files (batchesRead root settings files w)) := by
  induction files generalizing report w with
  | nil =>
    obtain ⟨hreport, rfl⟩ := Prod.mk.inj h
    obtain rfl := Except.ok.inj hreport
    exact ⟨by simp [batchesRead], Wrote.nothing w.messages, fun _ => .nil⟩
  | cons file files ih =>
    rw [List.foldlM_cons, World.run_bind] at h
    cases hfirst : World.run (generateFile root settings report file) w with
    | mk outcome w₁ =>
      rw [hfirst] at h
      cases outcome with
      | error fault => cases h
      | ok report₁ =>
        obtain ⟨batches, messages, hload, hbatches⟩ := generateFile_eq_ok hfirst
        obtain ⟨rfl, hafter, hwrote⟩ := wrote_of_foldlM hv ha (w := { w with messages }) hl hbatches
        have hwrote : Wrote root settings batches w w₁ :=
          (Wrote.nothing messages).append hwrote
        have hreads : batchesRead root settings (file :: files) w =
            batches :: batchesRead root settings files w₁ := by
          rw [batchesRead, hload, hafter]
        obtain ⟨rfl, hrest, hagain⟩ := ih (hl.congr hwrote.kept.links) h
        rw [hreads, List.flatten_cons]
        have hall := hwrote.append hrest
        refine ⟨?_, hall, fun havoid => .cons ?_ (hagain ?_)⟩
        · simp
        · obtain ⟨_, hload'⟩ := loadPhrases_kept (congrArg Prod.fst hload) hall.host
            hall.directory hall.kept (havoid file (List.mem_cons_self ..))
          rw [hload']
        · intro later hlater
          rw [hwrote.directory]
          refine ((havoid later (List.mem_cons_of_mem file hlater)).mono ?_).congr hwrote.kept.links
          rintro p ⟨b, hb, hp⟩
          exact ⟨b, List.mem_append_right batches hb, hp.congr hwrote.kept.links.symm⟩

end Phrasebook.Workspace
