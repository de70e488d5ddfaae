/-
# Phrasebook.Proofs.FileTree.Kept -- what stays while files are written

Writing files below a directory keeps all links and all directories, and of the files those that are
not written.  `Kept` is this relation between the tree before and the tree after, for a predicate
that says which places may be written.  Then whatever a path led to before, it leads to afterwards,
unless that is one of the written files; directories that are new can only make more paths lead
somewhere.
-/
import Phrasebook.Proofs.FileTree.Leads

namespace Phrasebook.FileTree

/-- Links and directories stay, and so do the files that are not written. -/
structure Kept (written : Place → Prop) (tree tree' : FileTree) : Prop where
  links : SameLinks tree tree'
  directories : ∀ p, tree.at? p = some .directory → tree'.at? p = some .directory
  files : ∀ p, ¬ written p →
    ∀ content, tree'.at? p = some (.file content) ↔ tree.at? p = some (.file content)

namespace Kept

variable {written other : Place → Prop} {tree tree' tree'' : FileTree}

theorem refl (written : Place → Prop) (tree : FileTree) : Kept written tree tree where
  links := fun _ _ => Iff.rfl
  directories := fun _ h => h
  files := fun _ _ _ => Iff.rfl

theorem trans (h : Kept written tree tree') (h' : Kept written tree' tree'') :
    Kept written tree tree'' where
  links := fun p d => (h'.links p d).trans (h.links p d)
  directories := fun p hd => h'.directories p (h.directories p hd)
  files := fun p hp c => (h'.files p hp c).trans (h.files p hp c)

theorem mono (hw : ∀ p, written p → other p) (h : Kept written tree tree') :
    Kept other tree tree' where
  links := h.links
  directories := h.directories
  files := fun p hp c => h.files p (fun hwp => hp (hw p hwp)) c

/-- Putting a directory where nothing stands keeps everything. -/
theorem put_directory {place : Place} (hat : tree.at? place = none) :
    Kept written tree (tree.put place .directory) := by
  have hne : place ≠ [] := by
    rintro rfl
    cases hat
  have hput : ∀ p, (tree.put place .directory).at? p =
      if p = place then some .directory else tree.at? p := fun p => at?_put tree hne _ p
  refine ⟨?_, ?_, ?_⟩
  · intro p d
    rw [hput]
    by_cases h : p = place
    · rw [if_pos h, h, hat]
      simp
    · rw [if_neg h]
  · intro p hd
    rw [hput]
    by_cases h : p = place
    · rw [if_pos h]
    · rw [if_neg h, hd]
  · intro p _ c
    rw [hput]
    by_cases h : p = place
    · rw [if_pos h, h, hat]
      simp
    · rw [if_neg h]

/-- Putting a file where neither a link nor a directory stands keeps the rest. -/
theorem put_file {place : Place} (hne : place ≠ [])
    (hlink : ∀ d, tree.at? place ≠ some (.link d)) (hdir : tree.at? place ≠ some .directory)
    (hw : written place) (content : ByteArray) :
    Kept written tree (tree.put place (.file content)) := by
  have hput : ∀ p, (tree.put place (.file content)).at? p =
      if p = place then some (.file content) else tree.at? p := fun p => at?_put tree hne _ p
  refine ⟨?_, ?_, ?_⟩
  · intro p d
    rw [hput]
    by_cases h : p = place
    · rw [if_pos h, h]
      simp [hlink d]
    · rw [if_neg h]
  · intro p hd
    rw [hput, if_neg (fun h : p = place => hdir (h ▸ hd)), hd]
  · intro p hp c
    rw [hput, if_neg (fun h : p = place => hp (h ▸ hw))]

/-- Erasing a file keeps the rest. -/
theorem erase_file {place : Place} {content : ByteArray}
    (hat : tree.at? place = some (.file content)) (hw : written place) :
    Kept written tree (tree.erase place) := by
  have hne : place ≠ [] := by
    rintro rfl
    cases hat
  have herase : ∀ p, (tree.erase place).at? p = if p = place then none else tree.at? p := by
    intro p
    rw [at?_erase]
    by_cases h : p = place
    · rw [if_pos ⟨h ▸ hne, h⟩, if_pos h]
    · rw [if_neg (fun hc => h hc.2), if_neg h]
  refine ⟨?_, ?_, ?_⟩
  · intro p d
    rw [herase]
    by_cases h : p = place
    · rw [if_pos h, h, hat]
      simp
    · rw [if_neg h]
  · intro p hd
    rw [herase, if_neg, hd]
    rintro rfl
    rw [hat] at hd
    cases hd
  · intro p hp c
    rw [herase, if_neg (fun h : p = place => hp (h ▸ hw))]

variable {links : Nat} {place goal : Place} {parts : List Text} {entry : Entry}

/-- A walk that has found something finds it again, unless it is a file that is written. -/
theorem walks (h : Kept written tree tree')
    (hwalks : tree.Walks .target links place parts (.present goal entry))
    (hgoal : entry = .directory ∨ ¬ written goal) :
    tree'.Walks .target links place parts (.present goal entry) := by
  generalize hend : Arrival.present goal entry = final at hwalks ⊢
  induction hwalks with
  | done links place => exact .done links place
  | here hpart _ ih => exact .here hpart (ih hend)
  | up hpart _ ih => exact .up hpart (ih hend)
  | vacant _ _ => cases hend
  | file ha hat =>
    obtain ⟨rfl, rfl⟩ := Arrival.present.inj hend
    rcases hgoal with hdir | hgoal
    · cases hdir
    · exact .file ha ((h.files _ hgoal _).mpr hat)
  | entry he _ _ => cases he
  | directory ha hat _ ih => exact .directory ha (h.directories _ hat) (ih hend)
  | link ha hmore hat _ ih => exact .link ha hmore ((h.links _ _).mpr hat) (ih hend)

end Kept

/-! ## Asking for what a path leads to -/

variable {tree tree' : FileTree} {directory : Place} {path : Path}

/-- The place from which a path is taken. -/
def startOf (directory : Place) (path : Path) : Place := if path.isAbsolute then [] else directory

/-- No place that a path can lead to has a property. -/
def Avoids (tree : FileTree) (directory : Place) (path : Path) (written : Place → Prop) : Prop :=
  ∀ p, tree.Leads (startOf directory path) path.parts p → ¬ written p

theorem Avoids.congr {written : Place → Prop} (hs : SameLinks tree tree')
    (h : tree.Avoids directory path written) : tree'.Avoids directory path written :=
  fun p hp => h p (hp.congr hs.symm)

theorem Avoids.mono {written other : Place → Prop} (hw : ∀ p, other p → written p)
    (h : tree.Avoids directory path written) : tree.Avoids directory path other :=
  fun p hp ho => h p hp (hw p ho)

/-- A path to a place without links on the way avoids what is not that place. -/
theorem avoids_of_clear {written : Place → Prop}
    (hc : tree.Clear .target (startOf directory path) path.parts) (hp : PlainParts path.parts)
    (h : ¬ written (startOf directory path ++ path.parts)) :
    tree.Avoids directory path written := by
  intro p hleads
  rw [hleads.unique (Leads.of_clear hc hp)]
  exact h

/-- A path that can be handed over is walked along. -/
theorem arrive_eq_walk (h : pathError? path.text = none) (purpose : Purpose) :
    tree.arrive purpose directory path =
      tree.walk purpose linkLimit (startOf directory path) path.parts := by
  unfold arrive startOf
  rw [h]

theorem arrive_eq_error {e : FileError} (h : pathError? path.text = some e) (purpose : Purpose) :
    tree.arrive purpose directory path = .error e := by
  unfold arrive
  rw [h]

theorem arrive_eq_ok_iff {purpose : Purpose} {arrival : Arrival} :
    tree.arrive purpose directory path = .ok arrival ↔
      pathError? path.text = none ∧
        tree.Walks purpose linkLimit (startOf directory path) path.parts arrival := by
  cases herror : pathError? path.text with
  | some e => simp [arrive_eq_error herror]
  | none => simp [arrive_eq_walk herror, walk_eq_ok_iff]

/-- What a path leads to is what stands where a walk arrives. -/
theorem status_eq : tree.status directory path =
    match tree.arrive .target directory path with
    | .ok (.present _ entry) => .ok entry
    | .ok (.vacant _ _) => .error .notFound
    | .error e => .error e := by
  unfold status
  cases tree.arrive .target directory path with
  | error e => rfl
  | ok arrival => cases arrival <;> rfl

/-- A path leads to something if a walk arrives there. -/
theorem status_eq_ok_iff {entry : Entry} :
    tree.status directory path = .ok entry ↔
      ∃ place, tree.arrive .target directory path = .ok (.present place entry) := by
  rw [status_eq]
  cases tree.arrive .target directory path with
  | error e => simp
  | ok arrival => cases arrival <;> simp [eq_comm]

theorem read_eq_ok_iff {content : ByteArray} :
    tree.read directory path = .ok content ↔ tree.status directory path = .ok (.file content) := by
  unfold read
  rw [bind_eq_ok_iff]
  constructor
  · rintro ⟨entry, hstatus, h⟩
    cases entry with
    | file there =>
      obtain rfl : there = content := Except.ok.inj h
      exact hstatus
    | link destination => cases h
    | directory => cases h
  · intro h
    exact ⟨_, h, rfl⟩

/-- Where a path has arrived it still arrives, if it avoids what is written. -/
theorem Kept.arrive {written : Place → Prop} (h : Kept written tree tree')
    (ha : tree.Avoids directory path written) {place : Place} {entry : Entry}
    (harr : tree.arrive .target directory path = .ok (.present place entry)) :
    tree'.arrive .target directory path = .ok (.present place entry) := by
  obtain ⟨herror, hwalks⟩ := arrive_eq_ok_iff.mp harr
  have hplace : tree.Leads (startOf directory path) path.parts place := hwalks.leads (by decide)
  exact arrive_eq_ok_iff.mpr ⟨herror, h.walks hwalks (Or.inr (ha place hplace))⟩

/-- What a path has led to it still leads to. -/
theorem Kept.status {written : Place → Prop} (h : Kept written tree tree')
    (ha : tree.Avoids directory path written) {entry : Entry}
    (hs : tree.status directory path = .ok entry) : tree'.status directory path = .ok entry := by
  obtain ⟨place, harr⟩ := status_eq_ok_iff.mp hs
  exact status_eq_ok_iff.mpr ⟨place, h.arrive ha harr⟩

/-- A file that has been read reads the same, if it is not written. -/
theorem Kept.read {written : Place → Prop} (h : Kept written tree tree')
    (ha : tree.Avoids directory path written) {content : ByteArray}
    (hr : tree.read directory path = .ok content) : tree'.read directory path = .ok content :=
  read_eq_ok_iff.mpr (h.status ha (read_eq_ok_iff.mp hr))

end Phrasebook.FileTree
