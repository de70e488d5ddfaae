/-
# Phrasebook.Proofs.Text.Encoding -- a text is known by its bytes

Texts with the same UTF-8 form are the same, so what a file holds determines the text that was
written to it.  A text has such a form if each of its code points has one.  The number of bytes of a
text is that of its parts together.
-/
import Phrasebook.Text.Encoding

namespace Phrasebook.Text

/-- A text that is a string has the characters of that string. -/
theorem eq_map_of_mapM {t : Text} {cs : List Char} (h : t.mapM CodePoint.toChar? = some cs) :
    t = cs.map .scalar := by
  induction t generalizing cs with
  | nil =>
    obtain rfl := Option.some.inj h
    rfl
  | cons c t ih =>
    rw [List.mapM_cons] at h
    cases c with
    | surrogate u => cases h
    | scalar ch =>
      cases hrest : t.mapM CodePoint.toChar? with
      | none =>
        rw [hrest] at h
        cases h
      | some rest =>
        rw [hrest] at h
        obtain rfl := Option.some.inj h
        rw [List.map_cons, ← ih hrest]

/-- A text with a UTF-8 form is not changed to give it one. -/
theorem replaced_of_encode? {t : Text} (h : t.encode?.isSome) : t.replaced = t := by
  obtain ⟨bytes, hbytes⟩ := Option.isSome_iff_exists.mp h
  obtain ⟨string, hstring, -⟩ := Option.map_eq_some_iff.mp hbytes
  obtain ⟨cs, hcs, -⟩ := Option.map_eq_some_iff.mp hstring
  rw [eq_map_of_mapM hcs, replaced, List.flatMap_map, List.map_eq_flatMap]

/-- The bytes of a text determine it. -/
theorem encode?_injective {s t : Text} {content : ByteArray} (hs : s.encode? = some content)
    (ht : t.encode? = some content) : s = t := by
  have hstring : ∀ u : Text, u.encode? = some content →
      ∃ cs, u = cs.map .scalar ∧ (String.ofList cs).toUTF8 = content := by
    intro u hu
    obtain ⟨string, hstring, rfl⟩ := Option.map_eq_some_iff.mp hu
    obtain ⟨cs, hcs, rfl⟩ := Option.map_eq_some_iff.mp hstring
    exact ⟨cs, eq_map_of_mapM hcs, rfl⟩
  obtain ⟨cs, rfl, hcs⟩ := hstring s hs
  obtain ⟨ds, rfl, hds⟩ := hstring t ht
  rw [String.ofList_injective (String.toByteArray_inj.mp (hcs.trans hds.symm))]

/-! ## Texts with a form in bytes -/

/-- A text has a UTF-8 form if none of its code points is a lone surrogate. -/
theorem encode?_isSome_iff {t : Text} : t.encode?.isSome ↔ ∀ c ∈ t, c.toChar?.isSome := by
  have hmap : t.encode?.isSome ↔ (t.mapM CodePoint.toChar?).isSome := by
    unfold encode? toString?
    rw [Option.isSome_map, Option.isSome_map]
  rw [hmap]
  clear hmap
  induction t with
  | nil => simp
  | cons c t ih =>
    rw [List.forall_mem_cons]
    refine Iff.trans ?_ (and_congr_right fun _ => ih)
    rw [List.mapM_cons]
    cases c.toChar? with
    | none => simp
    | some ch => cases t.mapM CodePoint.toChar? <;> simp

theorem encode?_isSome_append {s t : Text} :
    (s ++ t).encode?.isSome ↔ s.encode?.isSome ∧ t.encode?.isSome := by
  simp only [encode?_isSome_iff, List.mem_append, or_imp, forall_and]

theorem encode?_isSome_map_scalar (cs : List Char) :
    (encode? (cs.map .scalar)).isSome := by
  rw [encode?_isSome_iff]
  intro c hc
  obtain ⟨ch, -, rfl⟩ := List.mem_map.mp hc
  rfl

/-- Pieces between separators have a form if all of them have. -/
theorem encode?_join {sep : Text} (hsep : sep.encode?.isSome) :
    ∀ {pieces : List Text}, (∀ t ∈ pieces, t.encode?.isSome) → (join sep pieces).encode?.isSome
  | [], _ => rfl
  | [t], h => by
    rw [join, List.intercalate_singleton]
    exact h t (List.mem_singleton_self t)
  | t :: next :: pieces, h => by
    obtain ⟨hfirst, hrest⟩ := List.forall_mem_cons.mp h
    rw [join, List.intercalate_cons_cons, ← join]
    simp only [encode?_isSome_append]
    exact ⟨⟨hfirst, hsep⟩, encode?_join hsep hrest⟩

/-! ## Numbers of bytes -/

theorem byteLength_append (s t : Text) : byteLength (s ++ t) = byteLength s + byteLength t := by
  induction s with
  | nil => simp [byteLength]
  | cons c s ih => cases c <;> simp [byteLength, ih, Nat.add_assoc]

end Phrasebook.Text
