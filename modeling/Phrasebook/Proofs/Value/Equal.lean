/-
# Phrasebook.Proofs.Value.Equal -- values that are equal without being the same

Values of different types can be equal: numbers are equal if they denote the same, a truth value
counting as a number, and so are collections of equal items and records of equal fields.  The
entries of a mapping count in any order.

What follows from equality here rests on few of its laws.  `Value.IsCongruence` states them, and
equality shares them with being the same value.
-/
import Phrasebook.Proofs.Value.Reordered

namespace Phrasebook.Value

/-- Equality of values.  A value equals itself, even if it is no number and so differs as a number
from every other one. -/
inductive Equal : Value → Value → Prop
  | same (v : Value) : Equal v v
  | key {v w : Value} : v.sameKey w = true → Equal v w
  | list {items others : List Value} :
      items.length = others.length →
      (∀ v w, (v, w) ∈ items.zip others → Equal v w) → Equal (.list items) (.list others)
  | tuple {items others : List Value} :
      items.length = others.length →
      (∀ v w, (v, w) ∈ items.zip others → Equal v w) → Equal (.tuple items) (.tuple others)
  | map {entries between others : List (Value × Value)} :
      entries.Perm between → between.length = others.length →
      (∀ entry other, (entry, other) ∈ between.zip others → Equal entry.1 other.1) →
      (∀ entry other, (entry, other) ∈ between.zip others → Equal entry.2 other.2) →
      Equal (.map entries) (.map others)
  | record {name : Text} {fields others : List (Text × Value)} :
      fields.map Prod.fst = others.map Prod.fst →
      (∀ field other, (field, other) ∈ fields.zip others → Equal field.2 other.2) →
      Equal (.record name fields) (.record name others)

/-- A relation between values that the ways of forming collections and records keep. -/
structure IsCongruence (equal : Value → Value → Prop) : Prop where
  refl : ∀ v, equal v v
  list : ∀ {items others : List Value}, List.Forall₂ equal items others →
    equal (.list items) (.list others)
  tuple : ∀ {items others : List Value}, List.Forall₂ equal items others →
    equal (.tuple items) (.tuple others)
  map : ∀ {entries others : List (Value × Value)},
    List.Forall₂ (fun entry other => entry.1 = other.1 ∧ equal entry.2 other.2) entries others →
    equal (.map entries) (.map others)
  record : ∀ {name : Text} {fields others : List (Text × Value)},
    List.Forall₂ (fun field other => field.1 = other.1 ∧ equal field.2 other.2) fields others →
    equal (.record name fields) (.record name others)

/-- Pairs that agree in both parts, one by one, are the same list. -/
theorem eq_of_forall₂_pairs {α β : Type} {as bs : List (α × β)}
    (h : List.Forall₂ (fun a b => a.1 = b.1 ∧ a.2 = b.2) as bs) : as = bs :=
  List.forall₂_eq_eq_eq ▸ h.imp fun _ _ hab => Prod.ext hab.1 hab.2

theorem isCongruence_eq : IsCongruence (· = ·) where
  refl _ := rfl
  list h := congrArg Value.list (List.forall₂_eq_eq_eq ▸ h)
  tuple h := congrArg Value.tuple (List.forall₂_eq_eq_eq ▸ h)
  map h := congrArg Value.map (eq_of_forall₂_pairs h)
  record h := congrArg (Value.record _) (eq_of_forall₂_pairs h)

theorem isCongruence_equal : IsCongruence Equal where
  refl := .same
  list h := .list h.length_eq fun _ _ hmem => (List.forall₂_iff_zip.mp h).2 hmem
  tuple h := .tuple h.length_eq fun _ _ hmem => (List.forall₂_iff_zip.mp h).2 hmem
  map {entries others} h := by
    obtain ⟨hlength, hpairs⟩ := List.forall₂_iff_zip.mp h
    refine .map (List.Perm.refl entries) hlength (fun entry other hmem => ?_)
      fun entry other hmem => (hpairs hmem).2
    rw [(hpairs hmem).1]
    exact .same other.1
  record h :=
    .record (Shape.map_eq_of_forall₂ h fun _ _ _ hpair => hpair.1.symm).symm
      fun _ _ hmem => ((List.forall₂_iff_zip.mp h).2 hmem).2

end Phrasebook.Value
