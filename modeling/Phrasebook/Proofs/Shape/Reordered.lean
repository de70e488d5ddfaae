/-
# Phrasebook.Proofs.Shape.Reordered -- shapes for which the order of keys is of no account

A mapping that is read as a record is asked for its fields in the order of their declaration, and its
unknown keys are named in ascending order.  So the order of its entries is not seen, neither in the
record nor in the fault.  This is not so where a mapping is decoded entry by entry, or handed on as it
is.  `Shape.Orderless` are the shapes without such places, and they decode values that differ in the
order of entries alike.
-/
import Phrasebook.Proofs.Text.Order
import Phrasebook.Proofs.Value.Reordered

namespace Phrasebook

open Value (atText DistinctKeys Reordered)

namespace Shape

/-- A shape that looks at all of a value, and at mappings only as records. -/
inductive Orderless : Shape → Prop
  | primitive (p : Primitive) : Orderless (.primitive p)
  | null : Orderless .null
  | listOf {item : Shape} : Orderless item → Orderless (.listOf item)
  | tupleOf {item : Shape} : Orderless item → Orderless (.tupleOf item)
  | oneOf {shapes : List Shape} : (∀ s ∈ shapes, Orderless s) → Orderless (.oneOf shapes)
  | record {number : Nat} {name : Text} {fields : List FieldShape} :
      (∀ f ∈ fields, Orderless f.shape) → Orderless (.record number name fields)

end Shape

/-! ## Unknown keys -/

theorem unknownKeys_perm (fields : List FieldShape) {entries others : List (Value × Value)}
    (h : entries.Perm others) : (unknownKeys fields entries).Perm (unknownKeys fields others) :=
  (h.filter _).map _

/-- Which keys are unknown depends on the keys alone. -/
theorem unknownKeys_eq_filter (fields : List FieldShape) (entries : List (Value × Value)) :
    unknownKeys fields entries = (entries.map Prod.fst).filter fun key =>
      !fields.any fun f => key.sameKey (.text f.name) := by
  rw [List.filter_map]
  rfl

/-- Unknown keys are named alike in whatever order they are met. -/
theorem ofUnknown_perm {keys others : List Value} (h : keys.Perm others) :
    Mismatch.ofUnknown keys = Mismatch.ofUnknown others := by
  rw [Mismatch.ofUnknown, Mismatch.ofUnknown, h.all_eq, Text.sort_eq_of_perm (h.map Value.display)]

namespace Shape

/-! ## Parts of a value -/

/-- A shape decodes a value and another one alike at every path. -/
def DecodesAlike (s : Shape) (v w : Value) : Prop := ∀ path, s.decode path v = s.decode path w

theorem decodeEach_congr {α β : Type} {f : Nat → α → Decoded β} {as bs : List α}
    (hlength : as.length = bs.length) (h : ∀ i a b, (a, b) ∈ as.zip bs → f i a = f i b) (i : Nat) :
    decodeEach f i as = decodeEach f i bs := by
  induction as generalizing bs i with
  | nil =>
    cases bs with
    | nil => rfl
    | cons b bs => cases hlength
  | cons a as ih =>
    cases bs with
    | nil => cases hlength
    | cons b bs =>
      have hrest := ih (Nat.succ.inj hlength)
        (fun j c d hcd => h j c d (List.mem_cons_of_mem _ hcd)) (i + 1)
      rw [decodeEach, decodeEach, h i a b (List.mem_cons_self ..), hrest]

/-- Items are decoded alike if each of them is. -/
theorem decodeItems_congr {item : Shape} {items others : List Value}
    (hlength : items.length = others.length)
    (h : ∀ v w, (v, w) ∈ items.zip others → item.DecodesAlike v w) (path : List Text) :
    decodeEach (fun i v => item.decode (path ++ [Text.ofNat i]) v) 0 items =
      decodeEach (fun i v => item.decode (path ++ [Text.ofNat i]) v) 0 others :=
  decodeEach_congr hlength (fun i v w hvw => h v w hvw (path ++ [Text.ofNat i])) 0

theorem decodeFirst_congr {shapes : List Shape} {v w : Value}
    (h : ∀ s ∈ shapes, s.DecodesAlike v w) (path : List Text) (fault : DecodeFault) :
    decodeFirst shapes path v fault = decodeFirst shapes path w fault := by
  induction shapes generalizing fault with
  | nil => rw [decodeFirst, decodeFirst]
  | cons s ss ih =>
    obtain ⟨hs, hss⟩ := List.forall_mem_cons.mp h
    rw [decodeFirst, decodeFirst, hs path, ih hss fault]
    split
    · rfl
    · cases s.decode path w with
      | ok u => rfl
      | error e =>
        show (if _ then _ else decodeFirst ss path v e) = if _ then _ else decodeFirst ss path w e
        rw [ih hss e]

/-- A field is decoded alike from mappings that hold at its name what its shape decodes alike. -/
theorem field_congr {R : Value → Value → Prop} {f : FieldShape}
    {entries others : List (Value × Value)}
    (h : Option.Rel R (atText entries f.name) (atText others f.name))
    (halike : ∀ v w, R v w → f.shape.DecodesAlike v w) (path : List Text) :
    f.decode path entries = f.decode path others := by
  unfold FieldShape.decode
  generalize atText entries f.name = v at h
  generalize atText others f.name = w at h
  cases h with
  | none => rfl
  | some h => exact halike _ _ h _

theorem decodeFields_congr {fields : List FieldShape} {entries others : List (Value × Value)}
    {path : List Text} (h : ∀ f ∈ fields, f.decode path entries = f.decode path others) :
    decodeFields fields path entries = decodeFields fields path others := by
  induction fields with
  | nil => rw [decodeFields, decodeFields]
  | cons f fields ih =>
    obtain ⟨hf, hfields⟩ := List.forall_mem_cons.mp h
    rw [decodeFields_cons, decodeFields_cons, hf, ih hfields]

/-! ## Whole values -/

/-- Reordered values are decoded alike by a shape to which the order is of no account. -/
theorem decode_reordered {s : Shape} (hs : s.Orderless) {v w : Value} (hv : v.DistinctKeys)
    (h : v.Reordered w) : s.DecodesAlike v w := by
  induction hs generalizing v w with
  | primitive p =>
    intro path
    cases h with
    | same => rfl
    | _ => cases p <;> rfl
  | null =>
    intro path
    cases h <;> rfl
  | @listOf item _ ih =>
    intro path
    cases h with
    | @list items others hlength hitems =>
      have hdistinct := Value.distinctKeys_of_mem_list hv
      rw [decode, decode, decodeItems_congr hlength]
      exact fun v w hvw => ih (hdistinct v (List.of_mem_zip hvw).1) (hitems v w hvw)
    | _ => rfl
  | @tupleOf item _ ih =>
    intro path
    cases h with
    | @list items others hlength hitems =>
      have hdistinct := Value.distinctKeys_of_mem_list hv
      rw [decode, decode, decodeItems_congr hlength]
      exact fun v w hvw => ih (hdistinct v (List.of_mem_zip hvw).1) (hitems v w hvw)
    | @tuple items others hlength hitems =>
      have hdistinct := Value.distinctKeys_of_mem_tuple hv
      rw [decode, decode, decodeItems_congr hlength]
      exact fun v w hvw => ih (hdistinct v (List.of_mem_zip hvw).1) (hitems v w hvw)
    | _ => rfl
  | @oneOf shapes _ ih =>
    intro path
    have hfirst := decodeFirst_congr (fun s hs => ih s hs hv h) path ⟨path, .noAlternative⟩
    -- null is related to itself only
    cases h with
    | same => rfl
    | _ => exact hfirst
  | @record number name fields _ ih =>
    intro path
    cases h with
    | @map entries between others hperm hkeys hvalues =>
      have hunknown : (unknownKeys fields entries).Perm (unknownKeys fields others) := by
        rw [unknownKeys_eq_filter fields others, ← hkeys, ← unknownKeys_eq_filter]
        exact unknownKeys_perm fields hperm
      have hfields : decodeFields fields path entries = decodeFields fields path others := by
        apply decodeFields_congr
        intro f hf
        exact field_congr (Value.atText_reordered hv hperm hkeys hvalues f.name)
          (fun _ _ hvw => ih f hf hvw.1 hvw.2) path
      rw [decode, decode, hfields, ofUnknown_perm hunknown, hunknown.isEmpty_eq]
    | _ => rfl

end Shape

end Phrasebook
