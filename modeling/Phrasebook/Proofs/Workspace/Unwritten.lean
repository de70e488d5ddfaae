/-
# Phrasebook.Proofs.Workspace.Unwritten -- what a batch leaves that is not written

Writing a batch can fail at any of its steps, and each of them is undone or leaves little.
Directories may have been made, all of them on the way to the source file (`Paved`).  The temporary
file is removed at the end, be it one that was written or one that had stood there, unless the host
refuses to remove it (`Swept`).  So the tree differs from that before at most in these two ways, and a
batch that is refused for a name leaves the very tree.

No link stands below the output root, which may itself be reached through links.
-/
import Phrasebook.Proofs.Workspace.Failing
import Phrasebook.Proofs.Workspace.Written

namespace Phrasebook.Workspace

open FileTree (Kept SameLinks)

variable {host : Host} {tree tree' tree'' : FileTree} {directory base : Place}
  {path root target : Path}
  {rest : List Text} {package : Text} {settings : Settings} {batch : Batch} {w w' : World}
  {fault : Fault}

/-! ## Directories on a way -/

/-- A place to which a path leads, or a path above it. -/
def OnWay (tree : FileTree) (path : Path) (p : Place) : Prop :=
  ∃ parts, parts <+: path.parts ∧ tree.Leads [] parts p

theorem OnWay.congr {p : Place} (hs : SameLinks tree tree') (h : OnWay tree path p) :
    OnWay tree' path p := by
  obtain ⟨parts, hprefix, hleads⟩ := h
  exact ⟨parts, hprefix, hleads.congr hs⟩

/-- Nothing has changed but that directories stand on the way to a path where nothing stood. -/
def Paved (path : Path) (tree tree' : FileTree) : Prop :=
  ∀ p, tree'.at? p = tree.at? p ∨
    tree.at? p = none ∧ tree'.at? p = some .directory ∧ OnWay tree path p

namespace Paved

theorem refl (path : Path) (tree : FileTree) : Paved path tree tree := fun _ => Or.inl rfl

/-- Files and links are where they were. -/
theorem at?_iff (h : Paved path tree tree') {p : Place} {entry : Entry} (he : entry ≠ .directory) :
    tree'.at? p = some entry ↔ tree.at? p = some entry := by
  rcases h p with heq | ⟨hnone, hdirectory, -⟩
  · rw [heq]
  · rw [hnone, hdirectory]
    simp [Ne.symm he]

theorem links (h : Paved path tree tree') : SameLinks tree tree' :=
  fun _ _ => h.at?_iff (by simp)

theorem trans (h : Paved path tree tree') (h' : Paved path tree' tree'') :
    Paved path tree tree'' := by
  intro p
  rcases h' p with heq' | ⟨hnone', hdirectory', hway'⟩
  · rw [heq']
    exact h p
  · rcases h p with heq | ⟨-, hdirectory, -⟩
    · exact Or.inr ⟨heq ▸ hnone', hdirectory', hway'.congr h.links.symm⟩
    · rw [hnone'] at hdirectory
      cases hdirectory

end Paved

/-- What has become of the place of a temporary file: a file that stood there is gone, or one stands
there that the host refuses to remove. -/
inductive Leftover (host : Host) (path : Path) (tree tree' : FileTree) (p : Place) : Prop
  | gone {content : ByteArray} : tree.at? p = some (.file content) → tree'.at? p = none →
      Leftover host path tree tree' p
  | kept {content : ByteArray} {refusal : Refusal} :
      (∀ entry, tree.at? p = some entry → ∃ old, entry = .file old) →
      tree'.at? p = some (.file content) → host.refuses tree' (.remove path) = some refusal →
      Leftover host path tree tree' p

/-- Nothing has changed but what stands at the place to which a temporary path leads. -/
def Swept (host : Host) (path : Path) (tree tree' : FileTree) : Prop :=
  ∀ p, tree'.at? p = tree.at? p ∨ tree.Leads [] path.parts p ∧ Leftover host path tree tree' p

theorem Swept.refl (host : Host) (path : Path) (tree : FileTree) : Swept host path tree tree :=
  fun _ => Or.inl rfl

end Phrasebook.Workspace
