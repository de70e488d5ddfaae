/-
# Phrasebook.Proofs.Shape.Path -- decoding does not look at where a value is

The path that decoding is given serves to say where a fault is, and for nothing else.  A value that
is decoded further in gives the same result, or the same mismatch at the same place of the value with
the front of the path before it.  `Decoded.behind` puts a front before the path of a fault, and there
is one lemma for each way in which outcomes are put together.
-/
import Phrasebook.Proofs.Shape.Accepts

namespace Phrasebook

/-- The fault of a value that stands behind the front of a path. -/
def DecodeFault.behind (front : List Text) (f : DecodeFault) : DecodeFault :=
  ⟨front ++ f.path, f.mismatch⟩

/-- The outcome for a value that stands behind the front of a path. -/
def Decoded.behind {α : Type} (front : List Text) (x : Decoded α) : Decoded α :=
  x.mapError (DecodeFault.behind front)

/-! ## Outcomes -/

namespace Decoded

variable {α β : Type}

theorem behind_mismatch (front path : List Text) (m : Mismatch) :
    behind front (mismatch path m : Decoded α) = mismatch (front ++ path) m := rfl

theorem behind_bind (front : List Text) (x : Decoded α) (f : α → Decoded β) :
    behind front (x >>= f) = behind front x >>= fun a => behind front (f a) := by
  cases x with
  | ok a => rfl
  | error fault => rfl

theorem behind_decodeEach {f g : Nat → α → Decoded β} {front : List Text} {as : List α}
    (h : ∀ i, ∀ a ∈ as, f i a = behind front (g i a)) (i : Nat) :
    decodeEach f i as = behind front (decodeEach g i as) := by
  induction as generalizing i with
  | nil => rfl
  | cons a as ih =>
    have hrest := ih (fun j b hb => h j b (List.mem_cons_of_mem a hb)) (i + 1)
    rw [decodeEach, decodeEach, h i a (List.mem_cons_self ..), hrest, behind_bind]
    simp only [behind_bind]
    rfl

theorem behind_valueStep (front path : List Text) (key : Value) :
    valueStep (front ++ path) key = behind front (valueStep path key) := by
  unfold valueStep
  split
  · rfl
  · rfl

end Decoded

/-! ## Decoding -/

namespace Shape

open Decoded

/-- A shape decodes a value behind the front of a path as it does without it. -/
def Unmoved (s : Shape) : Prop :=
  ∀ front path v, s.decode (front ++ path) v = behind front (s.decode path v)

theorem Unmoved.step {s : Shape} (h : s.Unmoved) (front path : List Text) (name : Text) (v : Value) :
    s.decode (front ++ path ++ [name]) v = behind front (s.decode (path ++ [name]) v) := by
  rw [List.append_assoc, h]

theorem Unmoved.items {item : Shape} (h : item.Unmoved) (front path : List Text)
    (items : List Value) :
    decodeEach (fun i v => item.decode (front ++ path ++ [Text.ofNat i]) v) 0 items =
      behind front (decodeEach (fun i v => item.decode (path ++ [Text.ofNat i]) v) 0 items) :=
  behind_decodeEach (fun _ v _ => h.step front path _ v) 0

theorem Unmoved.entry {key value : Shape} (hkey : key.Unmoved) (hvalue : value.Unmoved)
    (front path : List Text) (entry : Value × Value) :
    decodeEntry key value (front ++ path) entry =
      behind front (decodeEntry key value path entry) := by
  rw [decodeEntry, decodeEntry, behind_bind, hkey.step]
  simp only [behind_bind, behind_valueStep, hvalue.step]
  rfl

theorem decodeFirst_unmoved {shapes : List Shape} (h : ∀ s ∈ shapes, s.Unmoved)
    (front path : List Text) (v : Value) (fault : DecodeFault) :
    decodeFirst shapes (front ++ path) v (fault.behind front) =
      behind front (decodeFirst shapes path v fault) := by
  induction shapes generalizing fault with
  | nil =>
    rw [decodeFirst, decodeFirst]
    rfl
  | cons s ss ih =>
    obtain ⟨hs, hss⟩ := List.forall_mem_cons.mp h
    rw [decodeFirst, decodeFirst, hs]
    split
    · exact ih hss fault
    · cases s.decode path v with
      | ok w => rfl
      | error e =>
        show (if e.mismatch = .unwritableKeys then .error (e.behind front)
          else decodeFirst ss (front ++ path) v (e.behind front)) = _
        rw [ih hss e]
        show _ = behind front (if e.mismatch = .unwritableKeys then .error e
          else decodeFirst ss path v e)
        split
        · rfl
        · rfl

theorem field_unmoved {f : FieldShape} (h : f.shape.Unmoved) (front path : List Text)
    (entries : List (Value × Value)) :
    f.decode (front ++ path) entries = behind front (f.decode path entries) := by
  cases hv : Value.atText entries f.name with
  | some v => rw [FieldShape.decode_of_some hv, FieldShape.decode_of_some hv, h.step]
  | none =>
    cases hdefault : f.default with
    | some w =>
      rw [FieldShape.decode_of_default hv hdefault, FieldShape.decode_of_default hv hdefault]
      rfl
    | none =>
      rw [FieldShape.decode_of_missing hv hdefault, FieldShape.decode_of_missing hv hdefault,
        behind_mismatch, List.append_assoc]

theorem decodeFields_unmoved {fields : List FieldShape} (h : ∀ f ∈ fields, f.shape.Unmoved)
    (front path : List Text) (entries : List (Value × Value)) :
    decodeFields fields (front ++ path) entries =
      behind front (decodeFields fields path entries) := by
  induction fields with
  | nil =>
    rw [decodeFields, decodeFields]
    rfl
  | cons f fields ih =>
    obtain ⟨hf, hfields⟩ := List.forall_mem_cons.mp h
    rw [decodeFields_cons, decodeFields_cons, behind_bind, field_unmoved hf, ih hfields]
    simp only [behind_bind]
    rfl

theorem unmoved (s : Shape) : s.Unmoved := by
  induction s using Shape.induct with
  | any => exact fun _ _ _ => rfl
  | unchecked => exact fun _ _ _ => rfl
  | primitive p =>
    intro front path v
    rw [decode, decode]
    split
    · rfl
    · rfl
  | bare b =>
    intro front path v
    rw [decode, decode]
    split
    · rfl
    · rfl
  | listOf item ih =>
    intro front path v
    cases v with
    | list items =>
      rw [decode, decode, ih.items, behind_bind]
      rfl
    | _ => rfl
  | tupleOf item ih =>
    intro front path v
    cases v with
    | list items =>
      rw [decode, decode, ih.items, behind_bind]
      rfl
    | tuple items =>
      rw [decode, decode, ih.items, behind_bind]
      rfl
    | _ => rfl
  | mapOf key value ihkey ihvalue =>
    intro front path v
    cases v with
    | map entries =>
      rw [decode_mapOf, decode_mapOf, behind_bind,
        behind_decodeEach (fun _ entry _ => ihkey.entry ihvalue front path entry)]
      rfl
    | _ => rfl
  | oneOf shapes ih =>
    intro front path v
    by_cases hnull : v = .null ∧ Shape.null ∈ shapes
    · obtain ⟨rfl, hmem⟩ := hnull
      rw [decode, decode, if_pos (any_isNull_iff.mpr hmem), if_pos (any_isNull_iff.mpr hmem)]
      rfl
    · rw [decode_oneOf_of_not_null hnull, decode_oneOf_of_not_null hnull]
      exact decodeFirst_unmoved ih front path v ⟨path, .noAlternative⟩
  | record number name fields ih =>
    intro front path v
    cases v with
    | map entries =>
      rw [decode, decode, decodeFields_unmoved ih]
      split
      · rw [behind_bind]
        rfl
      · rfl
    | _ => rfl
  | model m =>
    intro front path v
    cases v with
    | map entries =>
      rw [decode, decode]
      cases m.read entries with
      | ok w => rfl
      | error faults => rfl
    | _ => rfl

/-- A value is decoded to the same result at every path, or to none.  Where it is refused, it is for
the same reason as at the empty path and in the same words, and the path of the fault is the path of
the value followed by the one within the value. -/
theorem decode_equivariant (s : Shape) (front : List Text) (v : Value) :
    (∀ w, s.decode front v = .ok w ↔ s.decode [] v = .ok w) ∧
      ∀ fault, s.decode front v = .error fault ↔
        ∃ inner, s.decode [] v = .error inner ∧ fault.path = front ++ inner.path ∧
          fault.mismatch = inner.mismatch := by
  have hfront : s.decode front v = behind front (s.decode [] v) := by
    simpa using s.unmoved front [] v
  rw [hfront]
  constructor
  · intro w
    exact mapError_eq_ok_iff
  · intro fault
    rw [behind, mapError_eq_error_iff]
    constructor
    · rintro ⟨inner, hinner, rfl⟩
      exact ⟨inner, hinner, rfl, rfl⟩
    · rintro ⟨inner, hinner, hpath, hmismatch⟩
      refine ⟨inner, hinner, ?_⟩
      rw [DecodeFault.behind, ← hpath, ← hmismatch]

end Shape

end Phrasebook
