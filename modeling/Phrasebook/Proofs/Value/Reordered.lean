/-
# Phrasebook.Proofs.Value.Reordered -- values that differ in the order of entries

A mapping holds each key once, and for what it holds the order of its entries is of no account.
`Value.Reordered` relates values that are the same up to that order, in any of their mappings and at
any depth; lists keep theirs.  Keys are left as they are, since no mapping can be in one.

For mappings with distinct keys such values have the same entry, up to order again, at every text.
-/
import Mathlib.Data.List.Forall2
import Phrasebook.Proofs.Shape.Yields

namespace Phrasebook

namespace Value

/-! ## Distinct keys -/

/-- A value whose mappings hold each key once. -/
inductive DistinctKeys : Value → Prop
  | plain {v : Value} : v.isCollection = false → DistinctKeys v
  | list {items : List Value} : (∀ v ∈ items, DistinctKeys v) → DistinctKeys (.list items)
  | tuple {items : List Value} : (∀ v ∈ items, DistinctKeys v) → DistinctKeys (.tuple items)
  | map {entries : List (Value × Value)} :
      entries.Pairwise (fun entry other => entry.1.sameKey other.1 = false) →
      (∀ entry ∈ entries, DistinctKeys entry.2) → DistinctKeys (.map entries)

theorem distinctKeys_of_mem_list {items : List Value} (h : DistinctKeys (.list items)) :
    ∀ v ∈ items, DistinctKeys v := by
  cases h with
  | plain h => cases h
  | list h => exact h

theorem distinctKeys_of_mem_tuple {items : List Value} (h : DistinctKeys (.tuple items)) :
    ∀ v ∈ items, DistinctKeys v := by
  cases h with
  | plain h => cases h
  | tuple h => exact h

theorem distinctKeys_of_mem_map {entries : List (Value × Value)} (h : DistinctKeys (.map entries)) :
    entries.Pairwise (fun entry other => entry.1.sameKey other.1 = false) ∧
      ∀ entry ∈ entries, DistinctKeys entry.2 := by
  cases h with
  | plain h => cases h
  | map hdistinct hvalues => exact ⟨hdistinct, hvalues⟩

theorem distinctKeys_pair {k l v w : Value} (hkeys : k.sameKey l = false) (hv : DistinctKeys v)
    (hw : DistinctKeys w) : DistinctKeys (.map [(k, v), (l, w)]) := by
  refine .map (List.pairwise_pair.mpr hkeys) ?_
  exact List.forall_mem_cons.mpr ⟨hv, List.forall_mem_singleton.mpr hw⟩

/-- At each text there is one value at most. -/
def OneAtText (entries : List (Value × Value)) : Prop :=
  ∀ name v w, (.text name, v) ∈ entries → (.text name, w) ∈ entries → v = w

theorem oneAtText_of_distinct {entries : List (Value × Value)}
    (h : entries.Pairwise fun entry other => entry.1.sameKey other.1 = false) :
    OneAtText entries := by
  induction h with
  | nil => exact fun _ _ _ hv => absurd hv List.not_mem_nil
  | @cons entry rest hentry _ ih =>
    have hother : ∀ name u, entry = (.text name, u) → ∀ v, (.text name, v) ∉ rest := by
      rintro name u rfl v hmem
      have hsame := hentry _ hmem
      rw [sameKey_text_iff.mpr rfl] at hsame
      cases hsame
    intro name v w hv hw
    rcases List.mem_cons.mp hv with hv | hv
    · rcases List.mem_cons.mp hw with hw | hw
      · exact (Prod.mk.inj (hv.trans hw.symm)).2
      · exact absurd hw (hother name v hv.symm w)
    · rcases List.mem_cons.mp hw with hw | hw
      · exact absurd hv (hother name w hw.symm v)
      · exact ih name v w hv hw

theorem mem_of_atText {entries : List (Value × Value)} {name : Text} {v : Value}
    (h : atText entries name = some v) : (.text name, v) ∈ entries := by
  obtain ⟨⟨key, w⟩, hfind, rfl⟩ := Option.map_eq_some_iff.mp h
  have hsame := List.find?_some hfind
  obtain rfl : key = .text name := sameKey_text_iff.mp hsame
  exact List.mem_of_find?_eq_some hfind

theorem atText_cons (entry : Value × Value) (entries : List (Value × Value)) (name : Text) :
    atText (entry :: entries) name =
      if entry.1.sameKey (.text name) then some entry.2 else atText entries name := by
  rw [atText, lookup, List.find?_cons]
  cases entry.1.sameKey (.text name) with
  | true => rfl
  | false => rfl

/-- What a mapping holds at a text is the value of the entry with that key. -/
theorem atText_eq_some_iff {entries : List (Value × Value)} (h : OneAtText entries) {name : Text}
    {v : Value} : atText entries name = some v ↔ (.text name, v) ∈ entries := by
  constructor
  · exact mem_of_atText
  · intro hmem
    cases hat : atText entries name with
    | some w => rw [h name w v (mem_of_atText hat) hmem]
    | none =>
      have hnone := List.find?_eq_none.mp (Option.map_eq_none_iff.mp hat) _ hmem
      exact absurd (sameKey_text_iff.mpr rfl) hnone

theorem atText_perm {entries others : List (Value × Value)} (h : entries.Perm others)
    (hone : OneAtText entries) (name : Text) : atText entries name = atText others name := by
  have hone' : OneAtText others := fun name v w hv hw =>
    hone name v w (h.mem_iff.mpr hv) (h.mem_iff.mpr hw)
  apply Option.ext
  intro v
  rw [atText_eq_some_iff hone, atText_eq_some_iff hone', h.mem_iff]

/-! ## Reordered values -/

/-- Values that are the same but for the order of the entries of their mappings. -/
inductive Reordered : Value → Value → Prop
  | same (v : Value) : Reordered v v
  | list {items others : List Value} :
      items.length = others.length →
      (∀ v w, (v, w) ∈ items.zip others → Reordered v w) →
      Reordered (.list items) (.list others)
  | tuple {items others : List Value} :
      items.length = others.length →
      (∀ v w, (v, w) ∈ items.zip others → Reordered v w) →
      Reordered (.tuple items) (.tuple others)
  | map {entries between others : List (Value × Value)} :
      entries.Perm between → between.map Prod.fst = others.map Prod.fst →
      (∀ entry other, (entry, other) ∈ between.zip others → Reordered entry.2 other.2) →
      Reordered (.map entries) (.map others)

theorem eq_of_mem_zip_self {α : Type} {as : List α} {a b : α} (h : (a, b) ∈ as.zip as) : a = b := by
  rw [List.zip_eq_zipWith, List.zipWith_self] at h
  obtain ⟨c, -, hc⟩ := List.mem_map.mp h
  obtain ⟨rfl, rfl⟩ := Prod.mk.inj hc
  rfl

/-- A mapping of the same entries in another order. -/
theorem reordered_of_perm {entries others : List (Value × Value)} (h : entries.Perm others) :
    Reordered (.map entries) (.map others) := by
  refine .map h rfl fun entry other hmem => ?_
  obtain rfl := eq_of_mem_zip_self hmem
  exact .same entry.2

/-- Entries with the same keys hold related values at each text, or both hold none. -/
theorem atText_zip {R : Value → Value → Prop} {entries others : List (Value × Value)}
    (hkeys : entries.map Prod.fst = others.map Prod.fst)
    (h : ∀ entry other, (entry, other) ∈ entries.zip others → R entry.2 other.2) (name : Text) :
    Option.Rel R (atText entries name) (atText others name) := by
  induction entries generalizing others with
  | nil =>
    cases others with
    | nil => exact .none
    | cons other others => cases hkeys
  | cons entry entries ih =>
    cases others with
    | nil => cases hkeys
    | cons other others =>
      obtain ⟨hkey, hrest⟩ := List.cons.inj hkeys
      have ih' := ih hrest fun e o heo => h e o (List.mem_cons_of_mem _ heo)
      rw [atText_cons, atText_cons, ← hkey]
      split
      · exact .some (h entry other (List.mem_cons_self ..))
      · exact ih'

/-- A mapping and a reordered one hold reordered values at each text, or both hold none. -/
theorem atText_reordered {entries between others : List (Value × Value)}
    (hdistinct : DistinctKeys (.map entries)) (hperm : entries.Perm between)
    (hkeys : between.map Prod.fst = others.map Prod.fst)
    (h : ∀ entry other, (entry, other) ∈ between.zip others → Reordered entry.2 other.2)
    (name : Text) :
    Option.Rel (fun v w => DistinctKeys v ∧ Reordered v w)
      (atText entries name) (atText others name) := by
  obtain ⟨hpairwise, hvalues⟩ := distinctKeys_of_mem_map hdistinct
  have hvalue : ∀ v, atText entries name = some v → DistinctKeys v := by
    intro v hv
    obtain ⟨entry, hentry, rfl⟩ := exists_mem_of_atText hv
    exact hvalues entry hentry
  have hrel := atText_zip hkeys h name
  rw [← atText_perm hperm (oneAtText_of_distinct hpairwise)] at hrel
  generalize atText others name = w at hrel
  cases hv : atText entries name with
  | none =>
    rw [hv] at hrel
    cases hrel
    exact .none
  | some v =>
    rw [hv] at hrel
    cases hrel with
    | some h => exact .some ⟨hvalue v hv, h⟩

end Value

end Phrasebook
