/-
# Phrasebook.Proofs.Workspace.Through -- writing where links stand

A batch is written beside its place and moved there, and links may stand anywhere: on the way to the
output root, below it, and under the two names that are used.  What a successful run leaves depends
on one of them.  Where no link stands under the temporary name, the source file is the only file
that is new or different (`LeftInPlace`).  Where one does, the text is written to wherever it leads,
and it is the link that is moved to the place of the source file (`LeftThrough`).

A link at the place of the source file is replaced.  That the file is found along its own path
afterwards takes one thing more, that the path did not lead to its directory through this very link.
-/
import Mathlib.Control.Monad.Basic
import Phrasebook.Proofs.FileTree.Children
import Phrasebook.Proofs.Workspace.Written

namespace Phrasebook.Workspace

open FileTree (Kept SameBut linkStart startOf)

variable {tree tree₁ tree₂ : FileTree} {directory base : Place} {dir root path : Path}
  {content : ByteArray} {w w' : World} {settings : Settings} {batch : Batch}

/-- The place of the source file in the directory of a package. -/
def sourcePlace (base : Place) : Place := base ++ [sourceFileName]

/-- The place of its temporary sibling. -/
def temporaryPlace (base : Place) : Place := base ++ [temporaryName]

/-- The source file is written, and nothing else is different.  It is reached along its path, unless
the way to its directory led through the link that it has replaced; then nothing is. -/
structure LeftInPlace (tree tree' : FileTree) (directory : Place) (dir : Path) (base : Place)
    (content : ByteArray) : Prop where
  others : SameBut (fun p => p = sourcePlace base ∨ p = temporaryPlace base) tree tree'
  temporary : tree'.at? (temporaryPlace base) = none
  source : tree'.at? (sourcePlace base) = some (.file content)
  reached : ¬ tree.Passes (sourcePlace base) (startOf directory dir) dir.parts →
    tree'.arrive .entry directory (dir.child sourceFileName) =
      .ok (.present (sourcePlace base) (.file content))
  lost : tree.Passes (sourcePlace base) (startOf directory dir) dir.parts →
    ∀ purpose arrival, tree'.arrive purpose directory (dir.child sourceFileName) ≠ .ok arrival

/-- The text is written to where a link leads that stood under the temporary name, and the link
stands in the place of the source file. -/
structure LeftThrough (tree tree' : FileTree) (base : Place) (destination : Text)
    (through : Place) (content : ByteArray) : Prop where
  leads : tree.Leads (linkStart base destination) (destinationParts destination) through
  others : SameBut (fun p => p = sourcePlace base ∨ p = temporaryPlace base ∨ p = through)
    tree tree'
  temporary : tree'.at? (temporaryPlace base) = none
  source : tree'.at? (sourcePlace base) = some (.link destination)
  written : through ≠ sourcePlace base → tree'.at? through = some (.file content)

/-- What writing a file and moving it leaves, in the directory to which a path leads. -/
structure Leaves (tree tree' : FileTree) (directory : Place) (dir : Path) (base : Place)
    (content : ByteArray) : Prop where
  leads : tree.Leads (startOf directory dir) dir.parts base
  inPlace : (∀ destination, tree.at? (temporaryPlace base) ≠ some (.link destination)) →
    LeftInPlace tree tree' directory dir base content
  through : ∀ destination, tree.at? (temporaryPlace base) = some (.link destination) →
    ∃ through, LeftThrough tree tree' base destination through content

theorem sourcePlace_ne (base : Place) : sourcePlace base ≠ temporaryPlace base := fun h =>
  temporaryName_ne (List.cons.inj (List.append_cancel_left h)).1.symm

theorem sourcePlace_ne_nil (base : Place) : sourcePlace base ≠ [] :=
  List.append_ne_nil_of_right_ne_nil _ (List.cons_ne_nil _ _)

theorem temporaryPlace_ne_nil (base : Place) : temporaryPlace base ≠ [] :=
  List.append_ne_nil_of_right_ne_nil _ (List.cons_ne_nil _ _)

/-- What stands where after an entry has been moved from the one name to the other. -/
theorem at?_moved (tree : FileTree) (base : Place) (entry : Entry) (p : Place) :
    ((tree.erase (temporaryPlace base)).put (sourcePlace base) entry).at? p =
      if p = sourcePlace base then some entry
      else if p = temporaryPlace base then none else tree.at? p := by
  rw [FileTree.at?_put _ (sourcePlace_ne_nil base)]
  by_cases hp : p = sourcePlace base
  · rw [if_pos hp, if_pos hp]
  · rw [if_neg hp, if_neg hp, FileTree.at?_erase]
    by_cases hp' : p = temporaryPlace base
    · rw [if_pos hp', if_pos ⟨hp' ▸ temporaryPlace_ne_nil base, hp'⟩]
    · rw [if_neg hp', if_neg fun h => hp' h.2]

/-- Apart from the two names a moved entry is not noticed. -/
theorem sameBut_moved (tree : FileTree) (base : Place) (entry : Entry) :
    SameBut (fun p => p = sourcePlace base ∨ p = temporaryPlace base) tree
      ((tree.erase (temporaryPlace base)).put (sourcePlace base) entry) :=
  (SameBut.erase (Or.inr rfl)).trans (SameBut.put (Or.inl rfl) (sourcePlace_ne_nil base) entry)

/-- The source file is reached along its path behind any walk to its directory. -/
theorem arrive_source (hat : tree.at? (sourcePlace base) = some (.file content))
    (hpath : pathError? (dir.child sourceFileName).text = none)
    (hreach : tree.Walks .target linkLimit (startOf directory dir) dir.parts
      (.present base .directory)) :
    tree.arrive .entry directory (dir.child sourceFileName) =
      .ok (.present (sourcePlace base) (.file content)) := by
  have hplain : PlainParts [sourceFileName] := fun part hm =>
    List.mem_singleton.mp hm ▸ isName_sourceFileName
  obtain ⟨left, hextend⟩ := hreach.extend
  have hlast : tree.Walks .entry left base [sourceFileName]
      (.present (sourcePlace base) (.file content)) :=
    .file ⟨isName_sourceFileName, by decide, fun h => nomatch h.1⟩ hat
  exact FileTree.arrive_eq_ok_iff.mpr ⟨hpath, hextend hplain (List.cons_ne_nil _ _) hlast⟩

/-- Writing under the temporary name and moving, where no link stands under that name. -/
theorem leftInPlace_of_replaced
    (hno : ∀ destination, tree.at? (temporaryPlace base) ≠ some (.link destination))
    (hfree : tree.at? (temporaryPlace base) ≠ some .directory)
    (hreach : tree.Walks .target linkLimit (startOf directory dir) dir.parts
      (.present base .directory))
    (hpath : pathError? (dir.child sourceFileName).text = none)
    (hdirectory : tree.at? (sourcePlace base) ≠ some .directory)
    (h₁ : tree₁ = tree.put (temporaryPlace base) (.file content))
    (h₂ : tree₂ = (tree₁.erase (temporaryPlace base)).put (sourcePlace base) (.file content)) :
    LeftInPlace tree tree₂ directory dir base content := by
  have hmoved : ∀ p, tree₂.at? p = if p = sourcePlace base then some (.file content)
      else if p = temporaryPlace base then none else tree.at? p := by
    intro p
    rw [h₂, at?_moved, h₁, FileTree.at?_put _ (temporaryPlace_ne_nil base)]
    split
    · rfl
    · split <;> rfl
  have hsource : tree₂.at? (sourcePlace base) = some (.file content) := by
    rw [hmoved, if_pos rfl]
  -- apart from the source file, directories and links stand where they stood
  have hkept : ∀ p entry, p ≠ sourcePlace base → p ≠ temporaryPlace base →
      tree.at? p = some entry → tree₂.at? p = some entry := by
    intro p entry hp htemporary hat
    rw [hmoved, if_neg hp, if_neg htemporary, hat]
  refine ⟨?_, ?_, hsource, ?_, ?_⟩
  · rw [h₂, h₁]
    exact (SameBut.put (Or.inr rfl) (temporaryPlace_ne_nil base) _).trans (sameBut_moved _ base _)
  · rw [hmoved, if_neg (sourcePlace_ne base).symm, if_pos rfl]
  · intro hpass
    refine arrive_source hsource hpath (hreach.around hpass ?_ ?_)
    · intro p hat
      exact hkept p _ (fun heq => hdirectory (heq ▸ hat)) (fun heq => hfree (heq ▸ hat)) hat
    · intro p hp destination hat
      exact hkept p _ hp (fun heq => hno destination (heq ▸ hat)) hat
  · intro hpass purpose arrival harr
    have hothers : ∀ p, p ≠ sourcePlace base → ∀ destination,
        tree₂.at? p = some (.link destination) ↔ tree.at? p = some (.link destination) := by
      intro p hp destination
      constructor
      · intro hat
        rw [hmoved, if_neg hp] at hat
        split at hat
        · cases hat
        · exact hat
      · intro hat
        exact hkept p _ hp (fun heq => hno destination (heq ▸ hat)) hat
    exact hpass.blocked hsource hothers (List.cons_ne_nil _ _) (FileTree.arrive_eq_ok_iff.mp harr).2

/-- The same where a link stands under that name. -/
theorem leftThrough_of_replaced {destination : Text} {through : Place}
    (hlink : tree.at? (temporaryPlace base) = some (.link destination))
    (hleads : tree.Leads (linkStart base destination) (destinationParts destination) through)
    (hfree : ∀ destination, tree.at? through ≠ some (.link destination))
    (hdirectory : tree.at? through ≠ some .directory)
    (h₁ : tree₁ = tree.put through (.file content))
    (h₂ : tree₂ = (tree₁.erase (temporaryPlace base)).put (sourcePlace base) (.link destination)) :
    LeftThrough tree tree₂ base destination through content := by
  have hne : through ≠ [] := by
    rintro rfl
    exact hdirectory rfl
  have hother : through ≠ temporaryPlace base := by
    rintro rfl
    exact hfree destination hlink
  have hmoved : ∀ p, tree₂.at? p = if p = sourcePlace base then some (.link destination)
      else if p = temporaryPlace base then none else tree₁.at? p := by
    intro p
    rw [h₂, at?_moved]
  refine ⟨hleads, ?_, ?_, ?_, ?_⟩
  · rw [h₂, h₁]
    exact (SameBut.put (Or.inr (Or.inr rfl)) hne _).trans
      ((sameBut_moved _ base _).mono fun p => Or.imp_right Or.inl)
  · rw [hmoved, if_neg (sourcePlace_ne base).symm, if_pos rfl]
  · rw [hmoved, if_pos rfl]
  · intro hp
    rw [hmoved, if_neg hp, if_neg hother, h₁, FileTree.at?_put _ hne, if_pos rfl]

/-- What is left by writing a file beside its place and moving it there. -/
theorem leaves_of_replaced
    (hwrite : tree.write directory (dir.child temporaryName) content = .ok tree₁)
    (hrename : tree₁.rename directory (dir.child temporaryName) (dir.child sourceFileName) =
      .ok tree₂) :
    ∃ base, Leaves tree tree₂ directory dir base content := by
  obtain ⟨base, place, hbase, h₁, hdirectory, hfree, hdirect, hthrough⟩ :=
    FileTree.write_child isName_temporaryName hwrite
  obtain ⟨base', entry, hbase', hpath, hentry, hsource, h₂⟩ :=
    FileTree.rename_children isName_temporaryName isName_sourceFileName temporaryName_ne hrename
  have hne : place ≠ [] := by
    rintro rfl
    exact hdirectory rfl
  -- the written file is no link, so that the way to the directory is still the same
  have hlinks : FileTree.SameLinks tree tree₁ := by
    have hkept : Kept (fun _ => True) tree (tree.put place (.file content)) :=
      Kept.put_file hne hfree hdirectory trivial content
    rw [h₁]
    exact hkept.links
  obtain rfl : base' = base := (hbase'.leads (by decide)).unique
    ((hbase.leads (by decide)).congr hlinks)
  have hwritten : ∀ p, tree₁.at? p = if p = place then some (.file content) else tree.at? p := by
    intro p
    rw [h₁, FileTree.at?_put _ hne]
  refine ⟨base', hbase.leads (by decide), ?_, ?_⟩
  · intro hno
    obtain rfl : place = temporaryPlace base' := hdirect hno
    rw [hwritten] at hentry hsource
    obtain rfl : Entry.file content = entry := by simpa [temporaryPlace] using hentry
    have hstood : tree.at? (sourcePlace base') ≠ some .directory := by
      simpa [sourcePlace, temporaryPlace, temporaryName_ne.symm] using hsource
    exact leftInPlace_of_replaced hno hdirectory hbase hpath hstood h₁ h₂
  · intro destination hlink
    have hother : temporaryPlace base' ≠ place := by
      rintro rfl
      exact hfree destination hlink
    have hmoves : tree₁.at? (temporaryPlace base') = some (.link destination) := by
      rw [hwritten, if_neg hother, hlink]
    obtain rfl : Entry.link destination = entry := Option.some.inj (hmoves.symm.trans hentry)
    exact ⟨place, leftThrough_of_replaced hlink (hthrough destination hlink) hfree hdirectory h₁ h₂⟩

/-! ## A whole run -/

theorem LeftInPlace.of_kept (hk : ∀ written, Kept written tree tree₁)
    (h : LeftInPlace tree₁ tree₂ directory dir base content) :
    LeftInPlace tree tree₂ directory dir base content where
  others := (SameBut.of_kept hk).trans h.others
  temporary := h.temporary
  source := h.source
  reached := fun hpass => h.reached fun hp => hpass (hp.congr (hk fun _ => True).links.symm)
  lost := fun hpass => h.lost (hpass.congr (hk fun _ => True).links)

theorem LeftThrough.of_kept (hk : ∀ written, Kept written tree tree₁) {destination : Text}
    {through : Place} (h : LeftThrough tree₁ tree₂ base destination through content) :
    LeftThrough tree tree₂ base destination through content where
  leads := h.leads.congr (hk fun _ => True).links.symm
  others := (SameBut.of_kept hk).trans h.others
  temporary := h.temporary
  source := h.source
  written := h.written

/-- That directories are made before, which are missing, makes no difference. -/
theorem Leaves.of_kept (hk : ∀ written, Kept written tree tree₁)
    (h : Leaves tree₁ tree₂ directory dir base content) :
    Leaves tree tree₂ directory dir base content where
  leads := h.leads.congr (hk fun _ => True).links.symm
  inPlace := fun hno => by
    have hleft := h.inPlace fun destination hat =>
      hno destination (((hk fun _ => True).links _ _).mp hat)
    exact hleft.of_kept hk
  through := fun destination hat => by
    obtain ⟨through, hleft⟩ := h.through destination (((hk fun _ => True).links _ _).mpr hat)
    exact ⟨through, hleft.of_kept hk⟩

/-- A run leaves what writing and moving leave in the directory of the package. -/
theorem leaves_of_emit (h : World.run (emit root settings batch) w = (.ok path, w')) :
    ∃ base text content, sourceText batch settings = .ok text ∧ text.encode? = some content ∧
      Leaves w.tree w'.tree w.directory (packageDirectory root batch.package) base content := by
  obtain ⟨-, text, content, tree₀, tree₁, tree₂, messages, htext, henc, hkept, hwrite, hrename,
    rfl⟩ := emit_eq_ok h
  have htemporary : temporaryPath (targetPath root batch.package) =
      (packageDirectory root batch.package).child temporaryName := temporaryPath_child _
  rw [htemporary] at hwrite hrename
  obtain ⟨base, hleaves⟩ := leaves_of_replaced hwrite hrename
  exact ⟨base, text, content, htext, henc, hleaves.of_kept hkept⟩

/-- What a successful run leaves, with links anywhere and for any output root.  It has come to the
directory to which the way of the package leads.  If no link stands there under the temporary name,
the source file holds the text and no other file has changed or is new; otherwise the text has gone
to where that link leads, and the link has become the source file. -/
theorem emit_leaves (h : World.run (emit root settings batch) w = (.ok path, w')) :
    path = targetPath root batch.package ∧ w'.directory = w.directory ∧
      ∃ base text content, sourceText batch settings = .ok text ∧ text.encode? = some content ∧
        Leaves w.tree w'.tree w.directory (packageDirectory root batch.package) base content := by
  refine ⟨(emit_eq_ok h).1, ?_, leaves_of_emit h⟩
  obtain ⟨-, -, -, -, -, -, -, -, -, -, -, -, rfl⟩ := emit_eq_ok h
  rfl

/-! ### Links on the way and in the place of the source file -/

/-- A world whose output root is a link, and in which the source file is a link to another file. -/
def linked : World where
  tree := ⟨[(["w"], .directory), (["w", "store"], .directory), (["w", "store", "a"], .directory),
    (["w", "keep.txt"], .file "kept".toUTF8), (["w", "out"], .link "store"),
    (["w", "store", "a", "Phrase.java"], .link "../../keep.txt")]⟩
  directory := ["w"]

/-- An empty batch. -/
def bareBatch : Batch := ⟨"a", []⟩

theorem runs_linked : (World.run (emit (Path.ofText "out") { } bareBatch) linked).1 =
    .ok (Path.ofText "out/a/Phrase.java") := by
  decide +kernel

/-- The package leads into the directory that the root is linked to. -/
theorem leads_linked : linked.tree.Leads (startOf ["w"] (packageDirectory (Path.ofText "out") "a"))
    (packageDirectory (Path.ofText "out") "a").parts ["w", "store", "a"] := by
  have hbehind : linked.tree.Leads ["w"] ["store", "a"] ["w", "store", "a"] :=
    .directory (by decide) rfl (.directory (by decide) rfl (.done _))
  show linked.tree.Leads ["w"] ["out", "a"] ["w", "store", "a"]
  exact .link (by decide) rfl hbehind

/-- The way to it does not lead through the link in the place of the source file. -/
theorem not_passes_linked : ¬ linked.tree.Passes (sourcePlace ["w", "store", "a"])
    (startOf ["w"] (packageDirectory (Path.ofText "out") "a"))
      (packageDirectory (Path.ofText "out") "a").parts := by
  -- with a file instead of the link the same way leads to the place
  have hok : ((linked.tree.put (sourcePlace ["w", "store", "a"]) (.file .empty)).arrive .entry
      ["w"] (Path.ofText "out/a/Phrase.java")).isOk = true := by decide +kernel
  cases harr : (linked.tree.put (sourcePlace ["w", "store", "a"]) (.file .empty)).arrive .entry
    ["w"] (Path.ofText "out/a/Phrase.java") with
  | error e =>
    rw [harr] at hok
    cases hok
  | ok arrival =>
    exact FileTree.not_passes_of_walks (sourcePlace_ne_nil _) (List.cons_ne_nil sourceFileName [])
      (FileTree.arrive_eq_ok_iff.mp harr).2

/-- The link is replaced, and the file it led to is left alone. -/
theorem emit_leaves_linked : ∃ w' content,
    World.run (emit (Path.ofText "out") { } bareBatch) linked =
        (.ok (Path.ofText "out/a/Phrase.java"), w') ∧
      w'.tree.at? ["w", "keep.txt"] = some (.file "kept".toUTF8) ∧
      w'.tree.arrive .entry ["w"] (Path.ofText "out/a/Phrase.java") =
        .ok (.present ["w", "store", "a", "Phrase.java"] (.file content)) := by
  obtain ⟨w', hrun⟩ := World.exists_run runs_linked
  obtain ⟨-, -, base, text, content, -, -, hleaves⟩ := emit_leaves hrun
  obtain rfl := hleaves.leads.unique leads_linked
  have hnone : linked.tree.at? (temporaryPlace ["w", "store", "a"]) = none := rfl
  have hleft := hleaves.inPlace fun destination hat => nomatch hnone.symm.trans hat
  refine ⟨w', content, hrun, ?_, hleft.reached not_passes_linked⟩
  exact hleft.others.stays _ (by decide) _ rfl

/-! ### A link under the temporary name, and one on the way to itself -/

/-- What stands in a file to which a run has no business to write. -/
def precious : Text := "precious"

def preciousFile : Entry := .file (precious.encode?.getD .empty)

/-- A world with a link to that file under the temporary name. -/
def planted : World where
  tree := ⟨[(["w"], .directory), (["w", "out"], .directory), (["w", "out", "a"], .directory),
    (["w", "victim.txt"], preciousFile),
    (["w", "out", "a", "Phrase.java.tmp"], .link "../../victim.txt")]⟩
  directory := ["w"]

/-- A world in which the link in the place of the source file leads to the output root. -/
def circular : World where
  tree := ⟨[(["w"], .directory), (["w", "out"], .directory), (["w", "out", "a"], .directory),
    (["w", "out", "a", "Phrase.java"], .link "..")]⟩
  directory := ["w"]

/-- The root that is reached through this link. -/
def circularRoot : Path := Path.ofText "out/a/Phrase.java"

theorem runs_planted : (World.run (emit (Path.ofText "out") { } bareBatch) planted).1 =
      .ok (Path.ofText "out/a/Phrase.java") ∧
    sourceText bareBatch { } ≠ .ok precious := by
  decide +kernel

theorem runs_circular : (World.run (emit circularRoot { } bareBatch) circular).1 =
    .ok (Path.ofText "out/a/Phrase.java/a/Phrase.java") := by
  decide +kernel

theorem leads_planted : planted.tree.Leads ["w"] ["out", "a"] ["w", "out", "a"] :=
  .directory (by decide) rfl (.directory (by decide) rfl (.done _))

/-- The text goes to the file, and the link becomes the source file. -/
theorem planted_overwritten : ∃ w',
    World.run (emit (Path.ofText "out") { } bareBatch) planted =
        (.ok (Path.ofText "out/a/Phrase.java"), w') ∧
      w'.tree.at? ["w", "victim.txt"] ≠ some preciousFile ∧
      w'.tree.at? ["w", "out", "a", "Phrase.java"] = some (.link "../../victim.txt") := by
  obtain ⟨hpath, hother⟩ := runs_planted
  obtain ⟨w', hrun⟩ := World.exists_run hpath
  obtain ⟨base, text, content, htext, hencode, hleaves⟩ := leaves_of_emit hrun
  obtain rfl := hleaves.leads.unique leads_planted
  obtain ⟨through, hleft⟩ := hleaves.through "../../victim.txt" rfl
  -- up twice from the directory of the package
  have hfile : ∀ destination, planted.tree.at? ["w", "victim.txt"] ≠ some (.link destination) :=
    fun destination hlink => by cases hlink
  have hleads : planted.tree.Leads ["w", "out", "a"] ["..", "..", "victim.txt"]
      ["w", "victim.txt"] :=
    .up rfl (.up rfl (.name (by decide) hfile (.done _)))
  obtain rfl := hleft.leads.unique hleads
  refine ⟨w', hrun, ?_, hleft.source⟩
  rw [hleft.written (by decide)]
  intro heq
  have hbytes : precious.encode? = some content := by
    rw [Entry.file.inj (Option.some.inj heq)]
    rfl
  obtain rfl := Text.encode?_injective hencode hbytes
  exact hother htext

theorem circular_lost : ∃ w', World.run (emit circularRoot { } bareBatch) circular =
      (.ok (Path.ofText "out/a/Phrase.java/a/Phrase.java"), w') ∧
    ∀ purpose arrival, w'.tree.arrive purpose ["w"]
      (Path.ofText "out/a/Phrase.java/a/Phrase.java") ≠ .ok arrival := by
  obtain ⟨w', hrun⟩ := World.exists_run runs_circular
  obtain ⟨base, text, content, -, -, hleaves⟩ := leaves_of_emit hrun
  have hbehind : circular.tree.Leads ["w", "out", "a"] ["..", "a"] ["w", "out", "a"] :=
    .up rfl (.directory (by decide) rfl (.done _))
  have hleads : circular.tree.Leads ["w"] ["out", "a", "Phrase.java", "a"] ["w", "out", "a"] :=
    .directory (by decide) rfl (.directory (by decide) rfl (.link (by decide) rfl hbehind))
  obtain rfl := hleaves.leads.unique hleads
  have hnone : circular.tree.at? (temporaryPlace ["w", "out", "a"]) = none := rfl
  have hleft := hleaves.inPlace fun destination hat => nomatch hnone.symm.trans hat
  have hpasses : circular.tree.Passes (sourcePlace ["w", "out", "a"]) ["w"]
      ["out", "a", "Phrase.java", "a"] :=
    .directory (by decide) rfl (.directory (by decide) rfl (.there (by decide) rfl rfl))
  exact ⟨w', hrun, hleft.lost hpasses⟩

/-- A run that succeeds may overwrite a file that is neither the source file nor its sibling, and
leave a link as the source file; and it may leave a source file that is not reached along its own
path. -/
theorem emit_not_inPlace : bareBatch.check = .ok () ∧
    planted.tree.at? ["w", "victim.txt"] = some preciousFile ∧
    (∃ w', World.run (emit (Path.ofText "out") { } bareBatch) planted =
        (.ok (Path.ofText "out/a/Phrase.java"), w') ∧
      w'.tree.at? ["w", "victim.txt"] ≠ some preciousFile ∧
      w'.tree.at? ["w", "out", "a", "Phrase.java"] = some (.link "../../victim.txt")) ∧
    ∃ w', World.run (emit circularRoot { } bareBatch) circular =
        (.ok (Path.ofText "out/a/Phrase.java/a/Phrase.java"), w') ∧
      ∀ purpose arrival, w'.tree.arrive purpose ["w"]
        (Path.ofText "out/a/Phrase.java/a/Phrase.java") ≠ .ok arrival :=
  ⟨rfl, rfl, planted_overwritten, circular_lost⟩

end Phrasebook.Workspace
