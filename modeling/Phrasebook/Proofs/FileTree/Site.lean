/-
# Phrasebook.Proofs.FileTree.Site -- paths below a directory without links

A path to a directory may lead through links and up again before it comes to its end.  If no link
stands at that end or below it, what follows in a longer path is plain: the longer path stands for
the place that its remaining parts spell from there.  `Site` is a directory of this kind with a path
that leads to it, and it stays one while files are written.
-/
import Phrasebook.Proofs.FileTree.Kept

namespace Phrasebook

/-- The path that goes on from another one with some parts. -/
def Path.below (root : Path) (rest : List Text) : Path := ⟨root.anchor, root.parts ++ rest⟩

namespace FileTree

variable {tree tree' : FileTree} {root : Path} {base directory : Place} {rest : List Text}

/-- No link stands where a path leads, or below. -/
def LinkfreeBelow (tree : FileTree) (root : Path) : Prop :=
  ∀ base, tree.Leads [] root.parts base →
    ∀ place destination, base <+: place → tree.at? place ≠ some (.link destination)

/-- Without links there are none below any path. -/
theorem Linkless.below (hl : tree.Linkless) (root : Path) : tree.LinkfreeBelow root :=
  fun _ _ place destination _ => hl place destination

/-- Along a path without links it is enough that no entry below its end is one. -/
theorem linkfreeBelow_of_clear (hc : tree.Clear .target [] root.parts) (hp : PlainParts root.parts)
    (h : ∀ e ∈ tree.entries, ∀ destination, some e.2 = some (.link destination) →
      ¬ root.parts <+: e.1) : tree.LinkfreeBelow root := by
  intro base hbase place destination hpre hat
  rw [hbase.unique (Leads.of_clear hc hp), List.nil_append] at hpre
  unfold at? at hat
  split at hat
  · cases hat
  · obtain ⟨before, after, hentries, -⟩ := List.lookup_eq_some_iff.mp hat
    exact h (place, .link destination) (by simp [hentries]) destination rfl hpre

theorem LinkfreeBelow.congr (hs : SameLinks tree tree') (h : tree.LinkfreeBelow root) :
    tree'.LinkfreeBelow root :=
  fun base hbase place destination hpre hat =>
    h base (hbase.congr hs.symm) place destination hpre ((hs place destination).mp hat)

/-- A path leads to a directory without links in it or below it. -/
structure Site (tree : FileTree) (root : Path) (base : Place) : Prop where
  absolute : root.isAbsolute = true
  reached : tree.Walks .target linkLimit [] root.parts (.present base .directory)
  linkfree : ∀ place destination, base <+: place → tree.at? place ≠ some (.link destination)

namespace Site

theorem leads (h : tree.Site root base) : tree.Leads [] root.parts base :=
  h.reached.leads (by decide)

theorem isDirectory (h : tree.Site root base) : tree.at? base = some .directory := by
  refine h.reached.directories ?_ base List.prefix_rfl
  intro p hp
  rw [List.prefix_nil.mp hp]
  rfl

/-- A site stays one while files are written. -/
theorem kept {written : Place → Prop} (h : tree.Site root base) (hk : Kept written tree tree') :
    tree'.Site root base where
  absolute := h.absolute
  reached := hk.walks h.reached (Or.inl rfl)
  linkfree := fun p d hpre hat => h.linkfree p d hpre ((hk.links p d).mp hat)

theorem clear (h : tree.Site root base) (purpose : Purpose) (rest : List Text) :
    tree.Clear purpose base rest := clear_of_below h.linkfree purpose rest

/-- A longer path leads to the place that its further parts spell. -/
theorem leads_below (h : tree.Site root base) (hp : PlainParts rest) :
    tree.Leads [] (root.parts ++ rest) (base ++ rest) :=
  h.leads.append (Leads.of_clear (h.clear .target rest) hp)

theorem startOf_below (h : tree.Site root base) (directory : Place) (rest : List Text) :
    startOf directory (root.below rest) = [] := if_pos h.absolute

/-- A walk along a longer path ends where its parts say, and its way is open. -/
theorem arrive (h : tree.Site root base) (hp : PlainParts rest) (hne : rest ≠ [])
    {purpose : Purpose} {arrival : Arrival}
    (harr : tree.arrive purpose directory (root.below rest) = .ok arrival) :
    tree.Open base rest ∧ arrival.IsAt tree (base ++ rest) := by
  obtain ⟨-, hwalks⟩ := arrive_eq_ok_iff.mp harr
  rw [h.startOf_below] at hwalks
  obtain ⟨goal, left, -, hfirst, hlast⟩ := Walks.cut hne hwalks
  obtain rfl : goal = base := (hfirst.leads (by decide)).unique h.leads
  have hspec := walk_clear left (h.clear purpose rest) hp h.isDirectory
  rw [walk_of_walks hlast] at hspec
  exact hspec

theorem standsFor (h : tree.Site root base) (hp : PlainParts rest) (hne : rest ≠ []) :
    tree.StandsFor directory (root.below rest) (base ++ rest) :=
  fun _ _ harr => (h.arrive hp hne harr).2

/-- A file to which the way is open can be read along a longer path. -/
theorem read (h : tree.Site root base) (hp : PlainParts rest) (hne : rest ≠ [])
    (hpath : pathError? (root.below rest).text = none) (ho : tree.Open base rest)
    {content : ByteArray} (hat : tree.at? (base ++ rest) = some (.file content)) :
    tree.read directory (root.below rest) = .ok content := by
  obtain ⟨left, hextend⟩ := h.reached.extend
  have hwalk := walk_of_open left (h.clear .target rest) hp h.isDirectory ho hat
  have hwalks := hextend hp hne (walks_of_walk hwalk)
  refine read_eq_ok_iff.mpr (status_eq_ok_iff.mpr ⟨base ++ rest, arrive_eq_ok_iff.mpr ⟨hpath, ?_⟩⟩)
  rw [h.startOf_below]
  exact hwalks

/-- A file to which the way is open can be removed along a longer path. -/
theorem remove (h : tree.Site root base) (hp : PlainParts rest) (hne : rest ≠ [])
    (hpath : pathError? (root.below rest).text = none) (ho : tree.Open base rest)
    {content : ByteArray} (hat : tree.at? (base ++ rest) = some (.file content)) :
    tree.remove directory (root.below rest) = .ok (tree.erase (base ++ rest)) := by
  obtain ⟨left, hextend⟩ := h.reached.extend
  have hwalk := walk_of_open left (h.clear .entry rest) hp h.isDirectory ho hat
  have hwalks := hextend hp hne (walks_of_walk hwalk)
  have harrive : tree.arrive .entry directory (root.below rest) =
      .ok (.present (base ++ rest) (.file content)) := by
    refine arrive_eq_ok_iff.mpr ⟨hpath, ?_⟩
    rw [h.startOf_below]
    exact hwalks
  unfold FileTree.remove
  rw [harrive]
  rfl

variable {written : Place → Prop} {content : ByteArray} {rest' : List Text}

/-- A file that is written along a longer path stands at the place of its further parts then. -/
theorem write (h : tree.Site root base) (hp : PlainParts rest) (hne : rest ≠ [])
    (hw : written (base ++ rest))
    (hwrite : tree.write directory (root.below rest) content = .ok tree') :
    Kept written tree tree' ∧ tree'.at? (base ++ rest) = some (.file content) := by
  obtain ⟨-, hdir, rfl⟩ := write_at (h.standsFor hp hne)
    (fun d => h.linkfree _ d (List.prefix_append ..)) hwrite
  have hroot : base ++ rest ≠ [] := by simp [hne]
  refine ⟨Kept.put_file hroot (fun d => h.linkfree _ d (List.prefix_append ..)) hdir hw content, ?_⟩
  rw [at?_put _ hroot, if_pos rfl]

/-- A file that is moved along longer paths can be read at its new place then. -/
theorem rename (h : tree.Site root base) (hp : PlainParts rest) (hne : rest ≠ [])
    (hp' : PlainParts rest') (hne' : rest' ≠ []) (hmove : base ++ rest ≠ base ++ rest')
    (hat : tree.at? (base ++ rest) = some (.file content)) (hw : written (base ++ rest))
    (hw' : written (base ++ rest'))
    (hrename : tree.rename directory (root.below rest) (root.below rest') = .ok tree') :
    Kept written tree tree' ∧ tree'.read directory (root.below rest') = .ok content := by
  obtain ⟨entry, hentry, ⟨arrival, harr⟩, hdir, rfl⟩ := rename_at (h.standsFor hp hne .entry)
    (h.standsFor hp' hne' .entry) hmove hrename
  obtain rfl : Entry.file content = entry := Option.some.inj (hat.symm.trans hentry)
  have hroot : base ++ rest' ≠ [] := by simp [hne']
  -- the old entry goes at its own place
  have herased : (tree.erase (base ++ rest)).at? (base ++ rest') = tree.at? (base ++ rest') := by
    rw [at?_erase, if_neg (fun hc => hmove hc.2.symm)]
  have hk : Kept written tree
      ((tree.erase (base ++ rest)).put (base ++ rest') (.file content)) := by
    refine (Kept.erase_file hat hw).trans (Kept.put_file hroot ?_ ?_ hw' content)
    · intro d
      rw [herased]
      exact h.linkfree _ d (List.prefix_append ..)
    · rw [herased]
      exact hdir
  refine ⟨hk, (h.kept hk).read hp' hne' (arrive_eq_ok_iff.mp harr).1
    ((h.arrive hp' hne' harr).1.mono hk.directories) ?_⟩
  rw [at?_put _ hroot, if_pos rfl]

end Site

/-- Where a longer path leads anywhere, the shorter one leads to a site. -/
theorem site_of_arrive (ha : root.isAbsolute = true) (hl : tree.LinkfreeBelow root)
    (hne : rest ≠ []) {purpose : Purpose} {arrival : Arrival}
    (harr : tree.arrive purpose directory (root.below rest) = .ok arrival) :
    ∃ base, tree.Site root base := by
  obtain ⟨-, hwalks⟩ := arrive_eq_ok_iff.mp harr
  rw [show startOf directory (root.below rest) = [] from if_pos ha] at hwalks
  obtain ⟨base, left, -, hfirst, -⟩ := Walks.cut hne hwalks
  exact ⟨base, ha, hfirst, hl base (hfirst.leads (by decide))⟩

end FileTree

end Phrasebook
