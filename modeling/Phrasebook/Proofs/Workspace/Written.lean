/-
# Phrasebook.Proofs.Workspace.Written -- files written below a directory without links

A batch that has been written has left its source file at the target path, to be read there by
anybody.  Of everything that stood before only two places may hold something else: those that the
target path and its temporary sibling lead to.  Links may stand anywhere but below the output root,
which may itself be reached through links.

Files of different packages do not meet, so what one batch has left stays until another batch of its
package is written.
-/
import Phrasebook.Proofs.FileTree.Site
import Phrasebook.Proofs.Text.Encoding
import Phrasebook.Proofs.Workspace.Emit

namespace Phrasebook.Workspace

open Java (isPackageName)
open FileTree (Kept)

/-! ## The parts of a source file below its root -/

/-- The parts of a file in the directory of a package. -/
def partsIn (package name : Text) : List Text := Text.split '.' package ++ [name]

/-- The name of the temporary sibling of a source file. -/
def temporaryName : Text := sourceFileName ++ temporaryEnding

theorem plain_partsIn {package name : Text} (h : isPackageName package = true)
    (hn : IsName name) : PlainParts (partsIn package name) := by
  intro part hm
  rcases List.mem_append.mp hm with hm | hm
  · exact plain_of_isIdentifier (isIdentifier_of_mem_segments h hm)
  · rw [List.mem_singleton.mp hm]
    exact hn

theorem partsIn_ne_nil (package name : Text) : partsIn package name ≠ [] := by
  simp [partsIn]

/-- Files in the directories of packages meet only if they are the same. -/
theorem partsIn_inj {package other name name' : Text}
    (h : partsIn package name = partsIn other name') : package = other ∧ name = name' := by
  obtain ⟨hsegments, hname⟩ := List.append_inj' h rfl
  exact ⟨Text.split_injective hsegments, (List.cons.inj hname).1⟩

theorem isName_sourceFileName : IsName sourceFileName :=
  ⟨by decide, by decide, by decide⟩

theorem isName_temporaryName : IsName temporaryName :=
  ⟨by decide, by decide, by decide⟩

theorem temporaryName_ne : temporaryName ≠ sourceFileName := by decide

theorem targetPath_eq_below (root : Path) {package : Text} (h : isPackageName package = true) :
    targetPath root package = root.below (partsIn package sourceFileName) := by
  rw [targetPath, packageDirectory_eq root h, Path.below, partsIn, ← List.append_assoc]
  rfl

theorem temporaryPath_eq_below (root : Path) {package : Text} (h : isPackageName package = true) :
    temporaryPath (targetPath root package) = root.below (partsIn package temporaryName) := by
  rw [targetPath, temporaryPath_child, packageDirectory_eq root h, Path.below, partsIn,
    ← List.append_assoc]
  rfl

/-! ## The places that are written -/

/-- A place that the target path of a package leads to, or its temporary sibling. -/
def WrittenPlace (tree : FileTree) (root : Path) (package : Text) (p : Place) : Prop :=
  tree.Leads [] (targetPath root package).parts p ∨
    tree.Leads [] (temporaryPath (targetPath root package)).parts p

theorem WrittenPlace.congr {tree tree' : FileTree} (hs : FileTree.SameLinks tree tree')
    {root : Path} {package : Text} {p : Place} (h : WrittenPlace tree root package p) :
    WrittenPlace tree' root package p := h.imp (·.congr hs) (·.congr hs)

section

variable {tree : FileTree} {root : Path} {base : Place} {package other : Text}

/-- Where no links stand on the way the written places are those that the paths spell. -/
theorem writtenPlace_clear (hp : PlainParts (targetPath root package).parts)
    (hp' : PlainParts (temporaryPath (targetPath root package)).parts)
    (hc : tree.Clear .target [] (targetPath root package).parts)
    (hc' : tree.Clear .target [] (temporaryPath (targetPath root package)).parts) {p : Place}
    (h : WrittenPlace tree root package p) :
    p = (targetPath root package).parts ∨ p = (temporaryPath (targetPath root package)).parts :=
  h.imp (fun hl => hl.unique (FileTree.Leads.of_clear hc hp))
    (fun hl => hl.unique (FileTree.Leads.of_clear hc' hp'))

/-- Below a site the written places are spelled out. -/
theorem writtenPlace_iff (hs : tree.Site root base) (h : isPackageName package = true)
    {p : Place} : WrittenPlace tree root package p ↔
      p = base ++ partsIn package sourceFileName ∨ p = base ++ partsIn package temporaryName := by
  have hsource := hs.leads_below (plain_partsIn h isName_sourceFileName)
  have htemporary := hs.leads_below (plain_partsIn h isName_temporaryName)
  unfold WrittenPlace
  rw [temporaryPath_eq_below root h, targetPath_eq_below root h]
  constructor
  · rintro (hp | hp)
    · exact Or.inl (hp.unique hsource)
    · exact Or.inr (hp.unique htemporary)
  · rintro (rfl | rfl)
    · exact Or.inl hsource
    · exact Or.inr htemporary

/-- The target path of a package avoids what is written for another one. -/
theorem avoids_target (hs : tree.Site root base) (h : isPackageName package = true)
    (ho : isPackageName other = true) (hne : package ≠ other) (directory : Place) :
    tree.Avoids directory (targetPath root package) (WrittenPlace tree root other) := by
  intro p hp hw
  rw [targetPath_eq_below root h, hs.startOf_below] at hp
  obtain rfl := hp.unique (hs.leads_below (plain_partsIn h isName_sourceFileName))
  rcases (writtenPlace_iff hs ho).mp hw with heq | heq
  · exact hne (partsIn_inj (List.append_cancel_left heq)).1
  · exact hne (partsIn_inj (List.append_cancel_left heq)).1

end

/-! ## Writing a batch -/

variable {w w' : World} {root path : Path} {settings : Settings} {batch : Batch}

/-- A file that has been replaced was written beside its place and moved there. -/
theorem replaceFile_eq_ok {target : Path} {text : Text} {u : Unit}
    (h : World.run (replaceFile target text) w = (.ok u, w')) :
    ∃ content tree₁ tree₂, text.encode? = some content ∧
      w.tree.write w.directory (temporaryPath target) content = .ok tree₁ ∧
      tree₁.rename w.directory (temporaryPath target) target = .ok tree₂ ∧
      w' = { w with tree := tree₂ } := by
  rcases replaceFile_cases target text w with ⟨fault, -, hrun⟩ | ⟨fault, part, tree, -, -, hrun⟩ |
    ⟨content, tree₁, tree₂, henc, hwrite, -, hrename, hrun⟩
  · cases h.symm.trans hrun
  · cases h.symm.trans hrun
  · exact ⟨content, tree₁, tree₂, henc, hwrite, hrename, (Prod.mk.inj (h.symm.trans hrun)).2⟩

/-- Making a directory keeps everything. -/
theorem kept_of_makeDirectory {tree tree' : FileTree} {directory : Place}
    (h : tree.makeDirectory directory path = .ok tree') (written : Place → Prop) :
    Kept written tree tree' := by
  obtain ⟨arrival, harr, h⟩ := bind_eq_ok_iff.mp h
  cases arrival with
  | present place entry => cases h
  | vacant parent name =>
    obtain rfl := Except.ok.inj h
    exact Kept.put_directory (FileTree.arrive_eq_ok_iff.mp harr).2.at?_vacant

/-- A batch that has been written was generated, and written where there were directories. -/
theorem emit_eq_ok (h : World.run (emit root settings batch) w = (.ok path, w')) :
    path = targetPath root batch.package ∧
    ∃ text content tree₀ tree₁ tree₂ messages, sourceText batch settings = .ok text ∧
      text.encode? = some content ∧ (∀ written, Kept written w.tree tree₀) ∧
      tree₀.write w.directory (temporaryPath (targetPath root batch.package)) content = .ok tree₁ ∧
      tree₁.rename w.directory (temporaryPath (targetPath root batch.package))
        (targetPath root batch.package) = .ok tree₂ ∧
      w' = { w with tree := tree₂, messages } := by
  unfold emit at h
  rw [World.run_bind] at h
  have hgenerate := run_generate batch settings w
  cases htext : sourceText batch settings with
  | error fault =>
    rw [htext] at hgenerate
    rw [hgenerate] at h
    cases h
  | ok text =>
    rw [htext] at hgenerate
    obtain ⟨messages, hrun⟩ := hgenerate
    rw [hrun] at h
    simp only at h
    rw [World.run_bind, World.run_liftM] at h
    obtain ⟨tree₀, hmade, hkept⟩ := ensureDirectories_relates (w := { w with messages })
      (targetPath root batch.package).parent
      (R := fun _ tree tree' => ∀ written, Kept written tree tree')
      (fun _ tree written => Kept.refl written tree)
      (fun _ _ _ _ h h' written => (h written).trans (h' written)) (fun _ _ _ h => h)
      (fun _ _ _ _ hmake written => kept_of_makeDirectory hmake written)
    rw [hmade] at h
    cases hoc : (ensureDirectories (m := StateM World) (targetPath root batch.package).parent
      { w with messages }).1 with
    | error e =>
      rw [hoc] at h
      cases h
    | ok u =>
      rw [hoc] at h
      simp only at h
      rw [World.run_bind] at h
      cases hrep : World.run (replaceFile (targetPath root batch.package) text)
        { w with tree := tree₀, messages } with
      | mk outcome w₁ =>
        rw [hrep] at h
        cases outcome with
        | error fault => cases h
        | ok u' =>
          obtain ⟨content, tree₁, tree₂, henc, hwrite, hrename, rfl⟩ := replaceFile_eq_ok hrep
          obtain ⟨hpath, hw'⟩ := Prod.mk.inj h
          exact ⟨(Except.ok.inj hpath).symm, text, content, tree₀, tree₁, tree₂, _, rfl, henc,
            hkept, hwrite, hrename, hw'.symm⟩

/-- The source file of a batch can be read at its target path and holds its text. -/
def Stored (root : Path) (settings : Settings) (tree : FileTree) (directory : Place)
    (batch : Batch) : Prop :=
  ∃ text content, sourceText batch settings = .ok text ∧ text.encode? = some content ∧
    tree.read directory (targetPath root batch.package) = .ok content

/-- Two batches of one package are stored at one path, so only if they have one text. -/
theorem Stored.iff_of_package_eq {tree : FileTree} {directory : Place} {other : Batch}
    (h : Stored root settings tree directory batch) (hp : other.package = batch.package) :
    Stored root settings tree directory other ↔
      sourceText other settings = sourceText batch settings := by
  obtain ⟨text, content, htext, henc, hread⟩ := h
  constructor
  · rintro ⟨text', content', htext', henc', hread'⟩
    rw [hp, hread] at hread'
    obtain rfl := Except.ok.inj hread'
    rw [htext, htext', Text.encode?_injective henc' henc]
  · intro heq
    exact ⟨text, content, heq.trans htext, henc, by rw [hp, hread]⟩

/-- A stored file stays while a batch of another package is written. -/
theorem Stored.kept {tree tree' : FileTree} {directory : Place}
    {written : Place → Prop} (h : Stored root settings tree directory batch)
    (ha : tree.Avoids directory (targetPath root batch.package) written)
    (hk : Kept written tree tree') : Stored root settings tree' directory batch := by
  obtain ⟨text, content, htext, henc, hread⟩ := h
  exact ⟨text, content, htext, henc, hk.read ha hread⟩

/-- A batch that has been written below an output root without links is stored, and nothing has
changed but at the places written. -/
theorem emit_stores (hv : settings.validate = true) (ha : root.isAbsolute = true)
    (hl : w.tree.LinkfreeBelow root)
    (h : World.run (emit root settings batch) w = (.ok path, w')) :
    batch.Legal ∧ path = targetPath root batch.package ∧
      w'.host = w.host ∧ w'.directory = w.directory ∧ (∃ base, w'.tree.Site root base) ∧
      Kept (WrittenPlace w.tree root batch.package) w.tree w'.tree ∧
      Stored root settings w'.tree w'.directory batch := by
  obtain ⟨rfl, text, content, tree₀, tree₁, tree₂, messages, htext, henc, hkept, hwrite, hrename,
    rfl⟩ := emit_eq_ok h
  have hlegal := legal_of_sourceText hv htext
  have hsource := plain_partsIn hlegal.package isName_sourceFileName
  have htemporary := plain_partsIn hlegal.package isName_temporaryName
  have hmove : ∀ base : Place, base ++ partsIn batch.package temporaryName ≠
      base ++ partsIn batch.package sourceFileName := fun base heq =>
    temporaryName_ne (partsIn_inj (List.append_cancel_left heq)).2
  have hk₀ := hkept (WrittenPlace w.tree root batch.package)
  rw [temporaryPath_eq_below root hlegal.package] at hwrite hrename
  rw [targetPath_eq_below root hlegal.package] at hrename
  -- the temporary file is written, so its path leads below a site
  obtain ⟨arrival, harr, -⟩ := bind_eq_ok_iff.mp hwrite
  obtain ⟨base, hs₀⟩ := FileTree.site_of_arrive ha (hl.congr hk₀.links)
    (partsIn_ne_nil _ _) harr
  have hwritten : ∀ p, p = base ++ partsIn batch.package sourceFileName ∨
      p = base ++ partsIn batch.package temporaryName →
      WrittenPlace w.tree root batch.package p := fun p hp =>
    ((writtenPlace_iff hs₀ hlegal.package).mpr hp).congr hk₀.links.symm
  obtain ⟨hk₁, hat⟩ := hs₀.write htemporary (partsIn_ne_nil _ _) (hwritten _ (Or.inr rfl)) hwrite
  obtain ⟨hk₂, hread⟩ := (hs₀.kept hk₁).rename htemporary (partsIn_ne_nil _ _) hsource
    (partsIn_ne_nil _ _) (hmove base) hat (hwritten _ (Or.inr rfl)) (hwritten _ (Or.inl rfl))
    hrename
  rw [← targetPath_eq_below root hlegal.package] at hread
  exact ⟨hlegal, rfl, rfl, rfl, ⟨base, (hs₀.kept hk₁).kept hk₂⟩, (hk₀.trans hk₁).trans hk₂, text,
    content, htext, henc, hread⟩

end Phrasebook.Workspace
