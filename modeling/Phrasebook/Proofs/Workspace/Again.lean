/-
# Phrasebook.Proofs.Workspace.Again -- reading again what has been read

After files have been written, a phrase file or a settings file that is none of them reads as it did
before.  For a settings file that is looked for this is more than a statement about one path, since
the path is found by following links.  Where it leads to a file it leads there again.

Where it leads nowhere it could lead somewhere afterwards, and in two ways only: a link left on it,
which is there only if links lead back to themselves, may pass through a directory that is new, and
a name too long for the system is noticed only when the directories before it are there.
-/
import Phrasebook.Proofs.FileTree.Following
import Phrasebook.Proofs.Host
import Phrasebook.Proofs.Workspace.Asking

namespace Phrasebook

/-- A world as a system keeps it: a sound tree with a directory to work in. -/
structure World.Sound (w : World) : Prop where
  tree : w.tree.Sound
  directory : w.tree.at? w.directory = some .directory

namespace Workspace

open FileTree (Kept)

variable {w w' : World} {written : Place → Prop} {batches : List Batch}

/-- What is known about a path is fixed by where it arrives, on one host. -/
theorem about_congr (path : Path) (hh : w'.host = w.host) (hd : w'.directory = w.directory)
    (h : w'.tree.arrive .target w.directory path = w.tree.arrive .target w.directory path) :
    about path w'.host w'.tree w'.directory = about path w.host w.tree w.directory := by
  unfold about
  rw [hh, hd, FileTree.status_eq, FileTree.status_eq, Host.read_congr h, h]

/-- A phrase file has been read from what is there. -/
theorem read_of_loadPhrases {file : Path}
    (h : (World.run (loadPhrases file) w).1 = .ok batches) : ∃ content, w.read file = .ok content := by
  have hrun : World.run (loadPhrases file) w = World.run (readPhraseFile file >>= _) w := rfl
  rw [hrun, World.run_bind] at h
  unfold readPhraseFile at h
  rw [World.run_bind, World.run_liftM] at h
  have hanswer : Workspace.read (m := StateM World) file w = (w.read file, w) := rfl
  rw [hanswer] at h
  cases hread : w.read file with
  | ok content => exact ⟨content, rfl⟩
  | error e =>
    -- whatever the reason, a fault follows
    rw [hread] at h
    cases e <;> cases h

/-- Batches are read again, whatever has been told meanwhile. -/
theorem loadPhrases_told {file : Path} (h : (World.run (loadPhrases file) w).1 = .ok batches)
    (messages : List Message) :
    (World.run (loadPhrases file) { w with messages }).1 = .ok batches := by
  have habout : about file ({ w with messages } : World).host ({ w with messages } : World).tree
      ({ w with messages } : World).directory = about file w.host w.tree w.directory := rfl
  obtain ⟨_, hagain⟩ := (asks_loadPhrases file).agree habout
  rw [hagain, h]

/-- Batches that were read are read again, unless their file has been written. -/
theorem loadPhrases_kept {file : Path} {written : Place → Prop}
    (h : (World.run (loadPhrases file) w).1 = .ok batches) (hh : w'.host = w.host)
    (hd : w'.directory = w.directory) (hk : Kept written w.tree w'.tree)
    (ha : w.tree.Avoids w.directory file written) :
    ∃ messages, World.run (loadPhrases file) w' = (.ok batches, { w' with messages }) := by
  obtain ⟨content, hread⟩ := read_of_loadPhrases h
  obtain ⟨place, harr, -⟩ := Host.read_eq_ok_iff.mp hread
  have habout := about_congr file hh hd ((hk.arrive ha harr).trans harr.symm)
  obtain ⟨messages, hrun⟩ := (asks_loadPhrases file).agree habout
  exact ⟨messages, by rw [hrun, h]⟩

/-! ## Settings -/

/-- What a path leads to, as a command sees it. -/
theorem run_kind? (path : Path) (w : World) :
    World.run (kind? path) w = (match w.tree.status w.directory path with
      | .ok entry => .ok (some (World.kindOf entry))
      | .error e => if meansAbsent e then .ok none else .error (.crash (.system e)), w) := by
  unfold kind?
  rw [World.run_bind, World.run_liftM]
  have hanswer : Workspace.status (m := StateM World) path w =
      ((w.tree.status w.directory path).map World.kindOf, w) := rfl
  rw [hanswer]
  cases w.tree.status w.directory path with
  | ok entry => rfl
  | error e =>
    simp only [Except.map]
    split <;> rfl

/-- Where no file is found the settings are the default ones. -/
theorem settingsFound_default {path : Path} {kind : Option FileKind}
    (h : World.run (kind? path) w = (.ok kind, w)) (hne : kind ≠ some .file) :
    ∃ messages, World.run (settingsFound path) w = (.ok ({ }, none), { w with messages }) := by
  unfold settingsFound
  rw [World.run_bind, h]
  simp only [if_neg hne]
  exact ⟨_, rfl⟩

/-- The settings are not touched by what is written.  A file that is given or found is not written.
Where none is found, the place that was looked at is not written either, and besides there is no link
left on the way to it and no name that is too long. -/
def SettingsApart (w : World) (config : Option Path) (written : Place → Prop) : Prop :=
  match config with
  | some path => w.tree.Avoids w.directory path written
  | none => ∀ place,
    w.tree.resolve w.directory (soughtPath w.directory) = .ok (Path.ofPlace place) →
      w.tree.Avoids w.directory (Path.ofPlace place) written ∧
        ((∀ entry, w.tree.status w.directory (Path.ofPlace place) = .ok entry →
            World.kindOf entry ≠ .file) →
          w.tree.Unlinked place ∧ ∀ part ∈ place, part.byteLength ≤ partLimit)

section

variable {found : Settings × Option Path}

/-- A file that has given settings is there. -/
theorem status_of_settingsFor {path : Path}
    (h : (World.run (settingsFor (some path)) w).1 = .ok found) :
    ∃ entry, w.tree.status w.directory path = .ok entry := by
  have hrun : World.run (settingsFor (some path)) w = World.run (kind? path >>= _) w := rfl
  rw [hrun, World.run_bind, run_kind?] at h
  cases hstatus : w.tree.status w.directory path with
  | ok entry => exact ⟨entry, rfl⟩
  | error e =>
    -- nothing is there, or it cannot be asked for
    rw [hstatus] at h
    simp only at h
    split at h
    · next hrun =>
      split at hrun
      · obtain ⟨hkind, rfl⟩ := Prod.mk.inj hrun
        obtain rfl := Except.ok.inj hkind
        cases h
      · cases (Prod.mk.inj hrun).1
    · cases h

/-- Settings that are found where no file is are the default ones. -/
theorem eq_default_of_unfound {path : Path}
    (hnone : ∀ entry, w.tree.status w.directory path = .ok entry → World.kindOf entry ≠ .file)
    (h : (World.run (settingsFound path) w).1 = .ok found) : found = ({ }, none) := by
  have hdefault : ∀ kind, World.run (kind? path) w = (.ok kind, w) → kind ≠ some .file →
      found = ({ }, none) := by
    intro kind hkind hne
    obtain ⟨messages, hrun⟩ := settingsFound_default hkind hne
    rw [hrun] at h
    exact (Except.ok.inj h).symm
  have hkind := run_kind? path w
  cases hstatus : w.tree.status w.directory path with
  | ok entry =>
    rw [hstatus] at hkind
    exact hdefault _ hkind fun heq => hnone entry hstatus (Option.some.inj heq)
  | error e =>
    rw [hstatus] at hkind
    simp only at hkind
    split at hkind
    · exact hdefault none hkind (by simp)
    · have hrun : World.run (settingsFound path) w = World.run (kind? path >>= _) w := rfl
      rw [hrun, World.run_bind, hkind] at h
      cases h

/-- Where a path arrives at the same the same settings are found. -/
theorem settingsFound_congr {path : Path} (hh : w'.host = w.host) (hd : w'.directory = w.directory)
    (harr : w'.tree.arrive .target w.directory path = w.tree.arrive .target w.directory path)
    (h : (World.run (settingsFound path) w).1 = .ok found) :
    ∃ messages, World.run (settingsFound path) w' = (.ok found, { w' with messages }) := by
  obtain ⟨messages, hrun⟩ := (asks_settingsFound path).agree (about_congr path hh hd harr)
  exact ⟨messages, by rw [hrun, h]⟩

/-- Where no file was found, on a way that stays what it is, none is found again. -/
theorem settingsFound_unfound {place : Place} (hsound : w.Sound) (hh : w'.host = w.host)
    (hd : w'.directory = w.directory)
    (hk : Kept written w.tree w'.tree) (hp : PlainParts place) (hu : w.tree.Unlinked place)
    (hshort : ∀ part ∈ place, part.byteLength ≤ partLimit)
    (hw : w.tree.Avoids w.directory (Path.ofPlace place) written)
    (hnone : ∀ entry, w.tree.status w.directory (Path.ofPlace place) = .ok entry →
      World.kindOf entry ≠ .file)
    (hloop : w.tree.arrive .target [] (Path.ofPlace place) ≠ .error .tooManyLinks)
    (h : (World.run (settingsFound (Path.ofPlace place)) w).1 = .ok found) :
    w'.tree.arrive .target [] (Path.ofPlace place) ≠ .error .tooManyLinks ∧
      ∃ messages, World.run (settingsFound (Path.ofPlace place)) w' =
        (.ok found, { w' with messages }) := by
  -- the directory does not matter for a path from the root
  have harrive : ∀ (tree : FileTree) (directory : Place),
      tree.arrive .target directory (Path.ofPlace place) =
        tree.arrive .target [] (Path.ofPlace place) := fun _ _ => rfl
  have hfound := eq_default_of_unfound hnone h
  have hdefault : ∀ kind, World.run (kind? (Path.ofPlace place)) w' = (.ok kind, w') →
      kind ≠ some .file → ∃ messages, World.run (settingsFound (Path.ofPlace place)) w' =
        (.ok found, { w' with messages }) := fun kind hkind hne => by
    rw [hfound]
    exact settingsFound_default hkind hne
  have hkind := run_kind? (Path.ofPlace place) w'
  rw [FileTree.status_eq, harrive] at hkind
  have habsent := FileTree.arrive_unfound hsound.tree hk hp hu hshort hw
    fun content hstatus => hnone _ hstatus rfl
  rcases habsent with ⟨e, he, he'⟩ | ⟨p, harr⟩ | ⟨p, name, harr⟩ | harr | harr
  · refine ⟨by rw [he', ← he]; exact hloop, settingsFound_congr hh hd ?_ h⟩
    rw [harrive w'.tree w.directory, harrive w.tree w.directory, he, he']
  · rw [harr] at hkind
    exact ⟨by simp [harr], hdefault _ hkind (by simp [World.kindOf])⟩
  · rw [harr] at hkind
    exact ⟨by simp [harr], hdefault none hkind (by simp)⟩
  · rw [harr] at hkind
    exact ⟨by simp [harr], hdefault none hkind (by simp)⟩
  · rw [harr] at hkind
    exact ⟨by simp [harr], hdefault none hkind (by simp)⟩

/-- Settings that were found where they are looked for are found again. -/
theorem settingsFound_kept {place : Place} (hsound : w.Sound) (hh : w'.host = w.host)
    (hd : w'.directory = w.directory)
    (hk : Kept written w.tree w'.tree) (hp : PlainParts place)
    (hw : w.tree.Avoids w.directory (Path.ofPlace place) written)
    (hno : (∀ entry, w.tree.status w.directory (Path.ofPlace place) = .ok entry →
        World.kindOf entry ≠ .file) →
      w.tree.Unlinked place ∧ ∀ part ∈ place, part.byteLength ≤ partLimit)
    (hloop : w.tree.arrive .target [] (Path.ofPlace place) ≠ .error .tooManyLinks)
    (h : (World.run (settingsFound (Path.ofPlace place)) w).1 = .ok found) :
    w'.tree.arrive .target [] (Path.ofPlace place) ≠ .error .tooManyLinks ∧
      ∃ messages, World.run (settingsFound (Path.ofPlace place)) w' =
        (.ok found, { w' with messages }) := by
  by_cases hfile : ∃ entry, w.tree.status w.directory (Path.ofPlace place) = .ok entry ∧
      World.kindOf entry = .file
  · obtain ⟨entry, hstatus, -⟩ := hfile
    obtain ⟨goal, harr⟩ := FileTree.status_eq_ok_iff.mp hstatus
    have harr' : w'.tree.arrive .target [] (Path.ofPlace place) = .ok (.present goal entry) :=
      hk.arrive hw harr
    exact ⟨by simp [harr'], settingsFound_congr hh hd ((hk.arrive hw harr).trans harr.symm) h⟩
  · have hnone : ∀ entry, w.tree.status w.directory (Path.ofPlace place) = .ok entry →
        World.kindOf entry ≠ .file := fun entry hstatus hkind => hfile ⟨entry, hstatus, hkind⟩
    obtain ⟨hunlinked, hshort⟩ := hno hnone
    exact settingsFound_unfound hsound hh hd hk hp hunlinked hshort hw hnone hloop h

/-- Settings that were found are found again, unless their file has been written. -/
theorem settingsFor_kept {config : Option Path} (hsound : w.Sound) (hh : w'.host = w.host)
    (hd : w'.directory = w.directory) (hk : Kept written w.tree w'.tree)
    (hapart : SettingsApart w config written)
    (h : (World.run (settingsFor config) w).1 = .ok found) :
    ∃ messages, World.run (settingsFor config) w' = (.ok found, { w' with messages }) := by
  cases config with
  | some path =>
    obtain ⟨entry, hstatus⟩ := status_of_settingsFor h
    obtain ⟨place, harr⟩ := FileTree.status_eq_ok_iff.mp hstatus
    have habout := about_congr path hh hd ((hk.arrive hapart harr).trans harr.symm)
    obtain ⟨messages, hrun⟩ := (asks_settingsFor path).agree habout
    exact ⟨messages, by rw [hrun, h]⟩
  | none =>
    rw [run_settingsFor_none] at h
    cases hresolve : w.tree.resolve w.directory (soughtPath w.directory) with
    | error fault =>
      rw [hresolve] at h
      cases h
    | ok candidate =>
      rw [hresolve] at h
      obtain ⟨hsurrogate, hzero, rfl, hloop⟩ := FileTree.resolve_eq_ok_iff.mp hresolve
      obtain ⟨hend, hplain⟩ := FileTree.endOf_kept (soughtPath w.directory) hsound.tree hk
        hsound.directory
      obtain ⟨hw, hno⟩ := hapart _ hresolve
      obtain ⟨hloop', messages, hrun⟩ :=
        settingsFound_kept hsound hh hd hk hplain hw hno hloop h
      refine ⟨messages, ?_⟩
      have hresolve' : w'.tree.resolve w'.directory (soughtPath w'.directory) =
          .ok (Path.ofPlace (w.tree.endOf w.directory (soughtPath w.directory))) := by
        rw [hd]
        exact FileTree.resolve_eq_ok_iff.mpr ⟨hsurrogate, hzero, by rw [hend], hloop'⟩
      rw [run_settingsFor_none, hresolve']
      exact hrun

end

end Workspace

end Phrasebook
