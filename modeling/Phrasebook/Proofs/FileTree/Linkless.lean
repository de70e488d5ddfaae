/-
# Phrasebook.Proofs.FileTree.Linkless -- trees in which a path names its place

A walk may end anywhere once links and `..` are about.  Without them it ends at the place that the
parts of the path spell, or fails: `walk_spec` is this statement, and says besides that failure has
one reason only, namely that the way is not open (a directory on it is missing, or a part is too
long).  Every operation on an absolute plain path is then an edit of the tree at the path's own
place, under a condition on the entries there.
-/
import Phrasebook.FileTree.Edit
import Phrasebook.Proofs.Outcome

namespace Phrasebook

/-! ## Plain paths and open ways -/

/-- No part is empty, `.` or `..`. -/
def PlainParts (parts : List Text) : Prop :=
  ∀ part ∈ parts, part ≠ [] ∧ part ≠ Path.here ∧ part ≠ Path.up

instance (parts : List Text) : Decidable (PlainParts parts) :=
  inferInstanceAs (Decidable (∀ part ∈ parts, part ≠ [] ∧ part ≠ Path.here ∧ part ≠ Path.up))

/-- An absolute path whose parts are plain: it spells a place. -/
structure Path.Plain (path : Path) : Prop where
  absolute : path.isAbsolute = true
  parts : PlainParts path.parts

/-- The arrival is at a place: at the entry there, or at the vacancy of its last name. -/
def Arrival.IsAt (tree : FileTree) (place : Place) : Arrival → Prop
  | .present p entry => p = place ∧ tree.at? place = some entry
  | .vacant directory name => directory ++ [name] = place ∧ tree.at? place = none

namespace FileTree

/-- The tree has no symbolic link. -/
def Linkless (tree : FileTree) : Prop :=
  ∀ place destination, tree.at? place ≠ some (.link destination)

/-- From a place on, every part but the last leads to a directory, and no part is too long. -/
def Open (tree : FileTree) (start : Place) : List Text → Prop
  | [] => True
  | part :: rest =>
    part.byteLength ≤ partLimit ∧
      (rest ≠ [] → tree.at? (start ++ [part]) = some .directory) ∧ tree.Open (start ++ [part]) rest

/-- Where directories stay, open ways stay open. -/
theorem Open.mono {tree tree' : FileTree}
    (h : ∀ place, tree.at? place = some .directory → tree'.at? place = some .directory)
    {start : Place} {parts : List Text} (ho : tree.Open start parts) : tree'.Open start parts := by
  induction parts generalizing start with
  | nil => trivial
  | cons part rest ih =>
    obtain ⟨hlen, hdir, hrest⟩ := ho
    exact ⟨hlen, fun hne => h _ (hdir hne), ih hrest⟩

/-- Putting a file somewhere makes no link. -/
theorem Linkless.put_file {tree : FileTree} (hl : tree.Linkless) {place : Place} (hp : place ≠ [])
    (content : ByteArray) : (tree.put place (.file content)).Linkless := by
  intro other destination hlink
  rw [at?_put _ hp] at hlink
  split at hlink
  · cases hlink
  · exact hl other destination hlink

/-- Putting a file where no directory stands keeps all directories. -/
theorem put_file_keeps {tree : FileTree} {place : Place} (hp : place ≠ [])
    (hdir : tree.at? place ≠ some .directory) (content : ByteArray) {other : Place}
    (hd : tree.at? other = some .directory) :
    (tree.put place (.file content)).at? other = some .directory := by
  rw [at?_put _ hp, if_neg, hd]
  rintro rfl
  exact hdir hd

/-! ## Walks -/

/-- However many links a walk may pass through, it goes on in some way from the first of them. -/
theorem walk_eq_walkWith (tree : FileTree) (purpose : Purpose) (links : Nat) :
    ∃ onward, tree.walk purpose links = tree.walkWith purpose onward := by
  cases links with
  | zero => exact ⟨_, rfl⟩
  | succ links => exact ⟨_, rfl⟩

/-- No link stands on the way from a place, except at its end if the walk is for that entry. -/
def Clear (tree : FileTree) (purpose : Purpose) (start : Place) : List Text → Prop
  | [] => True
  | part :: rest =>
    (∀ destination, tree.at? (start ++ [part]) = some (.link destination) →
      rest = [] ∧ purpose = .entry) ∧ tree.Clear purpose (start ++ [part]) rest

instance decidableNoLink (found : Option Entry) (P : Prop) [Decidable P] :
    Decidable (∀ destination, found = some (.link destination) → P) :=
  match found with
  | some (.link destination) => decidable_of_iff P ⟨fun h _ _ => h, fun h => h destination rfl⟩
  | some .directory => isTrue (by simp)
  | some (.file _) => isTrue (by simp)
  | none => isTrue (by simp)

instance decidableClear (tree : FileTree) (purpose : Purpose) :
    (start : Place) → (parts : List Text) → Decidable (tree.Clear purpose start parts)
  | _, [] => isTrue trivial
  | start, part :: rest =>
    have := decidableClear tree purpose (start ++ [part]) rest
    inferInstanceAs (Decidable (_ ∧ _))

/-- Where no link stands at a place or below it, all ways from there are clear. -/
theorem clear_of_below {tree : FileTree} {start : Place}
    (h : ∀ place destination, start <+: place → tree.at? place ≠ some (.link destination))
    (purpose : Purpose) (parts : List Text) : tree.Clear purpose start parts := by
  induction parts generalizing start with
  | nil => trivial
  | cons part rest ih =>
    refine ⟨fun destination hat => absurd hat (h _ _ (List.prefix_append ..)), ?_⟩
    exact ih fun place destination hpre => h place destination
      ((List.prefix_append start [part]).trans hpre)

theorem Linkless.clear {tree : FileTree} (hl : tree.Linkless) (purpose : Purpose) (start : Place)
    (parts : List Text) : tree.Clear purpose start parts :=
  clear_of_below (fun place destination _ => hl place destination) purpose parts

/-- On a clear way a walk along plain parts ends at their place exactly if the way is open. -/
theorem walk_clear {tree : FileTree} {purpose : Purpose} (links : Nat) {start : Place}
    {parts : List Text} (hc : tree.Clear purpose start parts) (hp : PlainParts parts)
    (hs : tree.at? start = some .directory) :
    match tree.walk purpose links start parts with
    | .ok arrival => tree.Open start parts ∧ arrival.IsAt tree (start ++ parts)
    | .error _ => ¬ tree.Open start parts := by
  -- how the walk would go on from a link does not matter
  obtain ⟨onward, hwalk⟩ := walk_eq_walkWith tree purpose links
  rw [hwalk]
  induction parts generalizing start with
  | nil =>
    rw [walkWith]
    exact ⟨trivial, by simp [Arrival.IsAt, hs]⟩
  | cons part rest ih =>
    obtain ⟨hne, hhere, hup⟩ := hp part (List.mem_cons_self ..)
    have hrest : PlainParts rest := fun p hm => hp p (List.mem_cons_of_mem part hm)
    have hslash : rest ≠ [[]] := by
      rintro rfl
      exact (hrest [] (List.mem_cons_self ..)).1 rfl
    rw [walkWith, if_neg (by simp [hne, hhere]), if_neg hup, if_neg (by simp [hslash])]
    by_cases hlen : partLimit < part.byteLength
    · rw [if_pos hlen]
      exact fun ho => absurd ho.1 (Nat.not_le.mpr hlen)
    rw [if_neg hlen]
    have hlen : part.byteLength ≤ partLimit := Nat.not_lt.mp hlen
    -- what stands at the next place decides whether the walk can go on
    cases hat : tree.at? (start ++ [part]) with
    | none =>
      cases rest with
      | nil => simp [Open, hlen, Arrival.IsAt, hat]
      | cons next others => simp [Open, hat]
    | some entry =>
      cases entry with
      | link destination =>
        obtain ⟨rfl, rfl⟩ := hc.1 destination hat
        simp [Open, hlen, Arrival.IsAt, hat]
      | directory =>
        have h := ih hc.2 hrest hat
        simp only [List.append_assoc, List.singleton_append] at h
        simp only [hat]
        split at h
        · exact ⟨⟨hlen, fun _ => hat, h.1⟩, h.2⟩
        · exact fun ho => h ho.2.2
      | file content =>
        cases rest with
        | nil => simp [Open, hlen, Arrival.IsAt, hat]
        | cons next others => simp [Open, hat]

/-- On a clear and open way a walk along plain parts finds what stands at their place. -/
theorem walk_of_open {tree : FileTree} {purpose : Purpose} (links : Nat) {start : Place}
    {parts : List Text} (hc : tree.Clear purpose start parts) (hp : PlainParts parts)
    (hs : tree.at? start = some .directory) (ho : tree.Open start parts) {entry : Entry}
    (hat : tree.at? (start ++ parts) = some entry) :
    tree.walk purpose links start parts = .ok (.present (start ++ parts) entry) := by
  have hspec := walk_clear links hc hp hs
  split at hspec
  · next arrival hwalk =>
    rw [hwalk]
    cases arrival with
    | vacant parent name =>
      rw [hspec.2.2] at hat
      cases hat
    | present place there =>
      obtain ⟨-, rfl, hthere⟩ := hspec
      obtain rfl : there = entry := Option.some.inj (hthere.symm.trans hat)
      rfl
  · exact absurd ho hspec

/-- On a clear way a walk along names that are not too long fails only where something is missing. -/
theorem walk_clear_error {tree : FileTree} {links : Nat} {start : Place} {parts : List Text}
    {e : FileError} (hc : tree.Clear .target start parts) (hp : PlainParts parts)
    (hshort : ∀ part ∈ parts, part.byteLength ≤ partLimit)
    (h : tree.walk .target links start parts = .error e) : e = .notFound ∨ e = .notDirectory := by
  obtain ⟨onward, hwalk⟩ := walk_eq_walkWith tree .target links
  rw [hwalk] at h
  induction parts generalizing start with
  | nil =>
    rw [walkWith] at h
    cases h
  | cons part rest ih =>
    obtain ⟨hne, hhere, hup⟩ := hp part (List.mem_cons_self ..)
    have hlen := hshort part (List.mem_cons_self ..)
    rw [walkWith, if_neg (by simp [hne, hhere]), if_neg hup, if_neg (by simp),
      if_neg (Nat.not_lt.mpr hlen)] at h
    simp only at h
    split at h
    · split at h
      · cases h
      · exact Or.inl (Except.error.inj h).symm
    · exact ih hc.2 (fun p hm => hp p (List.mem_cons_of_mem part hm))
        (fun p hm => hshort p (List.mem_cons_of_mem part hm)) h
    · split at h
      · cases h
      · exact Or.inr (Except.error.inj h).symm
    · next destination hat => exact absurd (hc.1 destination hat).2 (by decide)

/-- In a tree without links a walk along plain parts ends at their place exactly if the way is
open, whatever it is for. -/
theorem walk_spec {tree : FileTree} (hl : tree.Linkless) (purpose : Purpose) (links : Nat)
    {start : Place} {parts : List Text} (hp : PlainParts parts)
    (hs : tree.at? start = some .directory) :
    match tree.walk purpose links start parts with
    | .ok arrival => tree.Open start parts ∧ arrival.IsAt tree (start ++ parts)
    | .error _ => ¬ tree.Open start parts :=
  walk_clear links (hl.clear purpose start parts) hp hs

/-- The path can be handed to the system, and the way to its place is open. -/
def Direct (tree : FileTree) (path : Path) : Prop :=
  pathError? path.text = none ∧ tree.Open [] path.parts

/-- Where directories stay, a direct path stays direct. -/
theorem Direct.mono {tree tree' : FileTree}
    (h : ∀ place, tree.at? place = some .directory → tree'.at? place = some .directory)
    {path : Path} (hd : tree.Direct path) : tree'.Direct path :=
  ⟨hd.1, hd.2.mono h⟩

/-- An absolute plain path leads to its own place, from any working directory and for any purpose,
exactly if it is direct. -/
theorem arrive_spec {tree : FileTree} (hl : tree.Linkless) (purpose : Purpose) (directory : Place)
    {path : Path} (hp : path.Plain) :
    match tree.arrive purpose directory path with
    | .ok arrival => tree.Direct path ∧ arrival.IsAt tree path.parts
    | .error _ => ¬ tree.Direct path := by
  unfold arrive
  cases he : pathError? path.text with
  | some e =>
    intro hd
    rw [hd.1] at he
    cases he
  | none =>
    have hroot : tree.at? [] = some .directory := rfl
    have h := walk_spec hl purpose linkLimit hp.parts hroot
    simp only [hp.absolute, if_true, List.nil_append] at h ⊢
    split at h
    · exact ⟨⟨he, h.1⟩, h.2⟩
    · exact fun hd => h hd.2

section Places

variable {tree tree' : FileTree} {directory : Place} {path : Path}

/-- Where a walk arrives. -/
theorem arrive_ok {purpose : Purpose} {arrival : Arrival} (hl : tree.Linkless) (hp : path.Plain)
    (h : tree.arrive purpose directory path = .ok arrival) :
    tree.Direct path ∧ arrival.IsAt tree path.parts := by
  have hspec := arrive_spec hl purpose directory hp
  rwa [h] at hspec

/-- A direct path leads to the entry at its place. -/
theorem arrive_of_direct {entry : Entry} (purpose : Purpose) (hl : tree.Linkless) (hp : path.Plain)
    (hd : tree.Direct path) (hat : tree.at? path.parts = some entry) :
    tree.arrive purpose directory path = .ok (.present path.parts entry) := by
  have hwalk := walk_of_open linkLimit (hl.clear purpose [] path.parts) hp.parts rfl hd.2 hat
  unfold arrive
  rw [hd.1]
  simp only [hp.absolute, if_true]
  exact hwalk

/-! ## Edits are edits of the path's own place -/

/-- A path stands for a place if it leads there whenever it leads anywhere. -/
def StandsFor (tree : FileTree) (directory : Place) (path : Path) (place : Place) : Prop :=
  ∀ purpose arrival, tree.arrive purpose directory path = .ok arrival → arrival.IsAt tree place

/-- Without links a plain path stands for its own place. -/
theorem standsFor_of_linkless (hl : tree.Linkless) (hp : path.Plain) :
    tree.StandsFor directory path path.parts :=
  fun _ _ harr => (arrive_ok hl hp harr).2

/-- A directory is made only where nothing stands. -/
theorem makeDirectory_ok (hl : tree.Linkless) (hp : path.Plain)
    (h : tree.makeDirectory directory path = .ok tree') :
    tree.at? path.parts = none ∧ tree' = tree.put path.parts .directory := by
  obtain ⟨arrival, harr, h⟩ := bind_eq_ok_iff.mp h
  cases arrival with
  | present place entry => cases h
  | vacant parent name =>
    obtain ⟨-, hplace, hnone⟩ := arrive_ok hl hp harr
    rw [← hplace]
    exact ⟨hplace ▸ hnone, (Except.ok.inj h).symm⟩

/-- A file is written at the place of its path, if no link and no directory stands there. -/
theorem write_at {place : Place} {content : ByteArray} (hp : tree.StandsFor directory path place)
    (hno : ∀ destination, tree.at? place ≠ some (.link destination))
    (h : tree.write directory path content = .ok tree') :
    (∃ arrival, tree.arrive .writing directory path = .ok arrival) ∧
      tree.at? place ≠ some .directory ∧ tree' = tree.put place (.file content) := by
  obtain ⟨arrival, harr, h⟩ := bind_eq_ok_iff.mp h
  have hat := hp _ _ harr
  refine ⟨⟨arrival, harr⟩, ?_⟩
  cases arrival with
  | vacant parent name =>
    obtain ⟨hplace, hnone⟩ := hat
    rw [← hplace] at hnone ⊢
    exact ⟨by simp [hnone], (Except.ok.inj h).symm⟩
  | present other entry =>
    obtain ⟨rfl, hentry⟩ := hat
    cases entry with
    | file old => exact ⟨by simp [hentry], (Except.ok.inj h).symm⟩
    | link destination => exact absurd hentry (hno _)
    | directory => cases h

/-- An entry moves from the place of its path to that of another, if no directory stands there. -/
theorem rename_at {source target : Path} {old new : Place}
    (hs : ∀ arrival, tree.arrive .entry directory source = .ok arrival → arrival.IsAt tree old)
    (ht : ∀ arrival, tree.arrive .entry directory target = .ok arrival → arrival.IsAt tree new)
    (hne : old ≠ new) (h : tree.rename directory source target = .ok tree') :
    ∃ entry, tree.at? old = some entry ∧
      (∃ arrival, tree.arrive .entry directory target = .ok arrival) ∧
      tree.at? new ≠ some .directory ∧ tree' = (tree.erase old).put new entry := by
  obtain ⟨arrival, harr, h⟩ := bind_eq_ok_iff.mp h
  have hsource := hs _ harr
  cases arrival with
  | vacant parent name => cases h
  | present place entry =>
    obtain ⟨rfl, hat⟩ := hsource
    refine ⟨entry, hat, ?_⟩
    obtain ⟨goal, hgoal, h⟩ := bind_eq_ok_iff.mp h
    have htarget := ht _ hgoal
    refine ⟨⟨goal, hgoal⟩, ?_⟩
    cases goal with
    | vacant parent name =>
      obtain ⟨hplace, hnone⟩ := htarget
      rw [← hplace] at hnone ⊢
      exact ⟨by simp [hnone], (Except.ok.inj h).symm⟩
    | present other there =>
      obtain ⟨rfl, hthere⟩ := htarget
      -- a file and a link are replaced in the same way
      have hreplaced : there.isDirectory = false →
          tree' = (tree.erase place).put other entry := by
        intro hkind
        have hmove : (if other = place then .ok tree
            else .ok ((tree.erase place).put other entry)) =
              (.ok tree' : Except FileError FileTree) := by
          simp only [hkind, Bool.false_eq_true, if_false] at h
          exact h
        rw [if_neg (Ne.symm hne)] at hmove
        exact (Except.ok.inj hmove).symm
      cases there with
      | directory => cases h
      | link destination => exact ⟨by simp [hthere], hreplaced rfl⟩
      | file content => exact ⟨by simp [hthere], hreplaced rfl⟩

/-- A file is written only where no directory stands, and its way is open. -/
theorem write_ok {content : ByteArray} (hl : tree.Linkless) (hp : path.Plain)
    (h : tree.write directory path content = .ok tree') :
    tree.Direct path ∧ tree.at? path.parts ≠ some .directory ∧
      tree' = tree.put path.parts (.file content) := by
  obtain ⟨⟨arrival, harr⟩, hrest⟩ := write_at (standsFor_of_linkless hl hp) (hl _) h
  exact ⟨(arrive_ok hl hp harr).1, hrest⟩

/-- A file moves from its place to another one at which no directory stands. -/
theorem rename_ok {source target : Path} (hl : tree.Linkless) (hs : source.Plain)
    (ht : target.Plain) (hne : source.parts ≠ target.parts)
    (h : tree.rename directory source target = .ok tree') :
    ∃ entry, tree.at? source.parts = some entry ∧ tree.Direct target ∧
      tree.at? target.parts ≠ some .directory ∧
      tree' = (tree.erase source.parts).put target.parts entry := by
  obtain ⟨entry, hat, ⟨arrival, harr⟩, hrest⟩ := rename_at (standsFor_of_linkless hl hs .entry)
    (standsFor_of_linkless hl ht .entry) hne h
  exact ⟨entry, hat, (arrive_ok hl ht harr).1, hrest⟩

/-- Only what is no directory is removed. -/
theorem remove_ok (hl : tree.Linkless) (hp : path.Plain)
    (h : tree.remove directory path = .ok tree') :
    tree.at? path.parts ≠ some .directory ∧ tree' = tree.erase path.parts := by
  obtain ⟨arrival, harr, h⟩ := bind_eq_ok_iff.mp h
  obtain ⟨-, hat⟩ := arrive_ok hl hp harr
  cases arrival with
  | vacant parent name => cases h
  | present place entry =>
    obtain ⟨rfl, hentry⟩ := hat
    cases entry with
    | directory => cases h
    | link destination => exact absurd hentry (hl _ _)
    | file old => exact ⟨by simp [hentry], (Except.ok.inj h).symm⟩

/-- A file to which the way is open can be removed. -/
theorem remove_of_direct {content : ByteArray} (hl : tree.Linkless) (hp : path.Plain)
    (hd : tree.Direct path) (hat : tree.at? path.parts = some (.file content)) :
    tree.remove directory path = .ok (tree.erase path.parts) := by
  unfold remove
  rw [arrive_of_direct .entry hl hp hd hat]
  rfl

/-- A file to which the way is open can be read. -/
theorem read_of_direct {content : ByteArray} (hl : tree.Linkless) (hp : path.Plain)
    (hd : tree.Direct path) (hat : tree.at? path.parts = some (.file content)) :
    tree.read directory path = .ok content := by
  unfold read status
  rw [arrive_of_direct .target hl hp hd hat]
  rfl

end Places

end FileTree

end Phrasebook
