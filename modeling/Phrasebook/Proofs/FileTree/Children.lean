/-
# Phrasebook.Proofs.FileTree.Children -- files in a directory that is reached through links

Links may stand anywhere here: on the way to a directory, and in it under the very names that are
used.  The directory is where the way to it leads, and what is written or moved under a name in it
depends on what stands there.  Writing follows a link and moving does not: a file written under the
name of a link goes to where the link leads, and it is the link that is moved.

`SameBut` says what such changes leave alone.  Everything that stood before still stands, and all
that is new is directories, except at some places.
-/
import Phrasebook.Proofs.FileTree.Passing

namespace Phrasebook.FileTree

variable {tree tree' tree'' : FileTree} {directory place : Place} {dir : Path} {name other : Text}
  {purpose : Purpose} {content : ByteArray}

/-! ## What is left alone -/

/-- What stood before stands still and nothing is new but directories, except at some places. -/
structure SameBut (changed : Place → Prop) (tree tree' : FileTree) : Prop where
  stays : ∀ p, ¬ changed p → ∀ entry, tree.at? p = some entry → tree'.at? p = some entry
  news : ∀ p, ¬ changed p → ∀ entry, tree'.at? p = some entry →
    tree.at? p = some entry ∨ entry = .directory

namespace SameBut

variable {changed more : Place → Prop}

theorem trans (h : SameBut changed tree tree') (h' : SameBut changed tree' tree'') :
    SameBut changed tree tree'' where
  stays := fun p hp entry hat => h'.stays p hp entry (h.stays p hp entry hat)
  news := fun p hp entry hat => (h'.news p hp entry hat).elim (h.news p hp entry) Or.inr

theorem mono (hm : ∀ p, changed p → more p) (h : SameBut changed tree tree') :
    SameBut more tree tree' where
  stays := fun p hp => h.stays p fun hc => hp (hm p hc)
  news := fun p hp => h.news p fun hc => hp (hm p hc)

/-- Nothing but one place may have changed. -/
theorem of_eq_except (hp : changed place) (h : ∀ p, p ≠ place → tree'.at? p = tree.at? p) :
    SameBut changed tree tree' where
  stays := fun p hc entry hat => by
    rw [h p fun heq => hc (heq ▸ hp)]
    exact hat
  news := fun p hc entry hat => by
    rw [h p fun heq => hc (heq ▸ hp)] at hat
    exact Or.inl hat

theorem put (hp : changed place) (hne : place ≠ []) (entry : Entry) :
    SameBut changed tree (tree.put place entry) :=
  of_eq_except hp fun p hother => by rw [at?_put tree hne, if_neg hother]

theorem erase (hp : changed place) : SameBut changed tree (tree.erase place) :=
  of_eq_except hp fun p hother => by rw [at?_erase, if_neg fun h => hother h.2]

/-- Where no file may be written there is nothing new but directories. -/
theorem of_kept (h : ∀ written, Kept written tree tree') : SameBut changed tree tree' where
  stays := fun p _ entry hat => by
    cases entry with
    | file content => exact ((h fun _ => False).files p not_false content).mpr hat
    | link destination => exact ((h changed).links p destination).mpr hat
    | directory => exact (h changed).directories p hat
  news := fun p _ entry hat => by
    cases entry with
    | file content => exact Or.inl (((h fun _ => False).files p not_false content).mp hat)
    | link destination => exact Or.inl (((h changed).links p destination).mp hat)
    | directory => exact Or.inr rfl

end SameBut

/-! ## Under a name in a directory -/

/-- What a walk arrives at stands there, unless it is a directory to which no part was left. -/
theorem Walks.at?_present {links : Nat} {start goal : Place} {parts : List Text} {entry : Entry}
    (h : tree.Walks purpose links start parts (.present goal entry)) (he : entry ≠ .directory) :
    tree.at? goal = some entry := by
  generalize hend : Arrival.present goal entry = final at h
  induction h with
  | done links place =>
    obtain ⟨-, rfl⟩ := Arrival.present.inj hend
    exact absurd rfl he
  | here _ _ ih => exact ih hend
  | up _ _ ih => exact ih hend
  | vacant _ _ => cases hend
  | file _ hat =>
    obtain ⟨rfl, rfl⟩ := Arrival.present.inj hend
    exact hat
  | entry _ _ hat =>
    obtain ⟨rfl, rfl⟩ := Arrival.present.inj hend
    exact hat
  | directory _ _ _ ih => exact ih hend
  | link _ _ _ _ ih => exact ih hend

/-- The way to a name in a directory is the way to the directory, and the name. -/
theorem arrive_child {arrival : Arrival}
    (h : tree.arrive purpose directory (dir.child name) = .ok arrival) :
    ∃ base left,
      tree.Walks .target linkLimit (startOf directory dir) dir.parts (.present base .directory) ∧
        tree.Walks purpose left base [name] arrival := by
  obtain ⟨base, left, -, hbase, hlast⟩ := Walks.cut (List.cons_ne_nil _ _) (arrive_eq_ok_iff.mp h).2
  exact ⟨base, left, hbase, hlast⟩

/-- For its own entry a name in a directory stands for its place there, even if that is a link. -/
theorem Walks.entry_isAt {links : Nat} {base : Place} {arrival : Arrival} (hn : IsName name)
    (h : tree.Walks .entry links base [name] arrival) : arrival.IsAt tree (base ++ [name]) := by
  have hgoes := h.cons_name hn
  cases hat : tree.at? (base ++ [name]) with
  | none =>
    rw [hat] at hgoes
    rw [hgoes.2]
    exact ⟨rfl, hat⟩
  | some entry =>
    rw [hat] at hgoes
    cases entry with
    | file content =>
      rw [hgoes.2]
      exact ⟨rfl, hat⟩
    | directory =>
      cases hgoes
      exact ⟨rfl, hat⟩
    | link destination =>
      rcases hgoes with ⟨-, -, rfl⟩ | ⟨hmore, -⟩
      · exact ⟨rfl, hat⟩
      · exact absurd ⟨rfl, rfl⟩ hmore

/-- A file is written where its way leads, be it that a file stands there or nothing. -/
theorem write_eq_ok {path : Path} (h : tree.write directory path content = .ok tree') :
    ∃ arrival, tree.arrive .writing directory path = .ok arrival ∧
      tree' = tree.put arrival.place (.file content) ∧ tree.at? arrival.place ≠ some .directory ∧
      ∀ destination, tree.at? arrival.place ≠ some (.link destination) := by
  obtain ⟨arrival, harr, h⟩ := bind_eq_ok_iff.mp h
  have hwalks := (arrive_eq_ok_iff.mp harr).2
  refine ⟨arrival, harr, ?_⟩
  cases arrival with
  | vacant parent name =>
    have hnone := hwalks.at?_vacant
    exact ⟨(Except.ok.inj h).symm, by simp [Arrival.place, hnone], by simp [Arrival.place, hnone]⟩
  | present place entry =>
    cases entry with
    | file old =>
      have hfile := hwalks.at?_present (by simp)
      exact ⟨(Except.ok.inj h).symm, by simp [Arrival.place, hfile], by simp [Arrival.place, hfile]⟩
    | link destination => cases h
    | directory => cases h

/-- A file that is written under a name in a directory goes to its place there or, if a link stands
at that place, to where the link leads. -/
theorem write_child (hn : IsName name)
    (h : tree.write directory (dir.child name) content = .ok tree') :
    ∃ base place,
      tree.Walks .target linkLimit (startOf directory dir) dir.parts (.present base .directory) ∧
      tree' = tree.put place (.file content) ∧ tree.at? place ≠ some .directory ∧
      (∀ destination, tree.at? place ≠ some (.link destination)) ∧
      ((∀ destination, tree.at? (base ++ [name]) ≠ some (.link destination)) →
        place = base ++ [name]) ∧
      ∀ destination, tree.at? (base ++ [name]) = some (.link destination) →
        tree.Leads (linkStart base destination) (destinationParts destination) place := by
  obtain ⟨arrival, harr, rfl, hdirectory, hlink⟩ := write_eq_ok h
  obtain ⟨base, left, hbase, hlast⟩ := arrive_child harr
  have hgoes := hlast.cons_name hn
  refine ⟨base, arrival.place, hbase, rfl, hdirectory, hlink, ?_, ?_⟩
  · intro hno
    cases hat : tree.at? (base ++ [name]) with
    | none =>
      rw [hat] at hgoes
      rw [hgoes.2]
      rfl
    | some entry =>
      rw [hat] at hgoes
      cases entry with
      | file old =>
        rw [hgoes.2]
        rfl
      | link destination => exact absurd hat (hno destination)
      | directory =>
        -- a walk into a directory ends there, but no directory can be written
        cases hgoes
        exact absurd hat hdirectory
  · intro destination hat
    rw [hat] at hgoes
    rcases hgoes with ⟨-, hentry, -⟩ | ⟨-, links, -, hgoes⟩
    · cases hentry
    · rw [List.append_nil] at hgoes
      exact hgoes.leads (by decide)

/-- What is moved from one name in a directory to another is what stands at the one place, even if
that is a link; and a link at the other one is replaced like a file. -/
theorem rename_children (hn : IsName name) (ho : IsName other) (hne : name ≠ other)
    (h : tree.rename directory (dir.child name) (dir.child other) = .ok tree') :
    ∃ base entry,
      tree.Walks .target linkLimit (startOf directory dir) dir.parts (.present base .directory) ∧
      pathError? (dir.child other).text = none ∧ tree.at? (base ++ [name]) = some entry ∧
      tree.at? (base ++ [other]) ≠ some .directory ∧
      tree' = (tree.erase (base ++ [name])).put (base ++ [other]) entry := by
  -- both ways lead through one directory
  obtain ⟨arrival, harr, -⟩ := bind_eq_ok_iff.mp h
  obtain ⟨base, -, hbase, -⟩ := arrive_child harr
  have hat : ∀ {part : Text}, IsName part → ∀ arrival,
      tree.arrive .entry directory (dir.child part) = .ok arrival →
        arrival.IsAt tree (base ++ [part]) := by
    intro part hpart arrival harr
    obtain ⟨there, left, hthere, hlast⟩ := arrive_child harr
    obtain rfl : there = base := (hthere.leads (by decide)).unique (hbase.leads (by decide))
    exact hlast.entry_isAt hpart
  have hplaces : base ++ [name] ≠ base ++ [other] := fun heq =>
    hne (List.cons.inj (List.append_cancel_left heq)).1
  obtain ⟨entry, hentry, ⟨goal, hgoal⟩, hdirectory, hmoved⟩ :=
    rename_at (hat hn) (hat ho) hplaces h
  exact ⟨base, entry, hbase, (arrive_eq_ok_iff.mp hgoal).1, hentry, hdirectory, hmoved⟩

end Phrasebook.FileTree
