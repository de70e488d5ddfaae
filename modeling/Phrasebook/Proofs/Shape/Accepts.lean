/-
# Phrasebook.Proofs.Shape.Accepts -- which values a shape accepts

`Shape.Accepts` says by rules, one for each way of forming a shape, which values are accepted; no
order of evaluation and no path is in it.  Decoding agrees with the rules at every path: it gives a
value only for what they accept, and a fault with words only for what they do not.  A fault without
words says nothing, and there is none if the keys can be written, as they can be in a value that can
be written as a whole.
-/
import Phrasebook.Proofs.Shape.Decode

namespace Phrasebook

/-! ## The rules -/

namespace Shape

/-- The values that a shape accepts. -/
inductive Accepts : Shape → Value → Prop
  | any (v : Value) : Accepts .any v
  | unchecked (v : Value) : Accepts .unchecked v
  | text (t : Text) : Accepts (.primitive .text) (.text t)
  | int (n : Int) : Accepts (.primitive .int) (.int n)
  | real (x : Binary64) : Accepts (.primitive .real) (.real x)
  | bool (b : Bool) : Accepts (.primitive .bool) (.bool b)
  | null : Accepts .null .null
  | bareList (items : List Value) : Accepts (.bare .list) (.list items)
  | bareTuple (items : List Value) : Accepts (.bare .tuple) (.tuple items)
  | bareMap (entries : List (Value × Value)) : Accepts (.bare .map) (.map entries)
  | listOf {item : Shape} {items : List Value} :
      (∀ v ∈ items, Accepts item v) → Accepts (.listOf item) (.list items)
  | tupleOfList {item : Shape} {items : List Value} :
      (∀ v ∈ items, Accepts item v) → Accepts (.tupleOf item) (.list items)
  | tupleOfTuple {item : Shape} {items : List Value} :
      (∀ v ∈ items, Accepts item v) → Accepts (.tupleOf item) (.tuple items)
  | mapOf {key value : Shape} {entries : List (Value × Value)} :
      (∀ entry ∈ entries, Accepts key entry.1) → (∀ entry ∈ entries, Accepts value entry.2) →
      Accepts (.mapOf key value) (.map entries)
  | oneOf {shapes : List Shape} {s : Shape} {v : Value} :
      s ∈ shapes → Accepts s v → Accepts (.oneOf shapes) v
  | record {number : Nat} {name : Text} {fields : List FieldShape}
      {entries : List (Value × Value)} :
      OnlyKeys (fields.map FieldShape.name) entries →
      (∀ f ∈ fields, ∀ v, Value.atText entries f.name = some v → Accepts f.shape v) →
      (∀ f ∈ fields, Value.atText entries f.name = none → f.default.isSome = true) →
      Accepts (.record number name fields) (.map entries)
  | model {m : Model} {entries : List (Value × Value)} {w : Value} :
      m.read entries = .ok w → Accepts (.model m) (.map entries)

/-- Induction on how a shape is formed. -/
theorem induct {motive : Shape → Prop} (any : motive .any)
    (primitive : ∀ p, motive (.primitive p)) (bare : ∀ b, motive (.bare b))
    (listOf : ∀ item, motive item → motive (.listOf item))
    (tupleOf : ∀ item, motive item → motive (.tupleOf item))
    (mapOf : ∀ key value, motive key → motive value → motive (.mapOf key value))
    (oneOf : ∀ shapes, (∀ s ∈ shapes, motive s) → motive (.oneOf shapes))
    (record : ∀ number name fields, (∀ f ∈ fields, motive f.shape) →
      motive (.record number name fields))
    (model : ∀ m, motive (.model m)) (unchecked : motive .unchecked) (s : Shape) : motive s := by
  refine @Shape.rec motive (fun f => motive f.shape) (fun ss => ∀ s ∈ ss, motive s)
    (fun fs => ∀ f ∈ fs, motive f.shape) any primitive bare listOf tupleOf mapOf oneOf record model
    unchecked ?field ?none ?some ?noField ?someField s
  case field => exact fun name shape default h => h
  case none => exact fun s h => absurd h List.not_mem_nil
  case some => exact fun s ss hs hss => List.forall_mem_cons.mpr ⟨hs, hss⟩
  case noField => exact fun f h => absurd h List.not_mem_nil
  case someField => exact fun f fs hf hfs => List.forall_mem_cons.mpr ⟨hf, hfs⟩

end Shape

/-- What a mapping holds for a field is accepted, nothing only if there is a default. -/
structure FieldShape.Accepts (f : FieldShape) (entries : List (Value × Value)) : Prop where
  given : ∀ v, Value.atText entries f.name = some v → f.shape.Accepts v
  absent : Value.atText entries f.name = none → f.default.isSome = true

namespace Shape

theorem accepts_null_iff {v : Value} : Shape.null.Accepts v ↔ v = .null := by
  constructor
  · rintro ⟨⟩
    rfl
  · rintro rfl
    exact .null

theorem eq_null_of_isNull {s : Shape} (h : s.isNull = true) : s = .null := by
  cases s with
  | bare b =>
    cases b with
    | null => rfl
    | _ => cases h
  | _ => cases h

theorem any_isNull_iff {shapes : List Shape} :
    shapes.any isNull = true ↔ Shape.null ∈ shapes := by
  rw [List.any_eq_true]
  constructor
  · rintro ⟨s, hs, hnull⟩
    rwa [← eq_null_of_isNull hnull]
  · intro h
    exact ⟨.null, h, rfl⟩

theorem accepts_primitive_iff {p : Primitive} {v : Value} :
    p.accepts v = true ↔ (primitive p).Accepts v := by
  constructor
  · intro h
    cases p <;> cases v <;> first | constructor | cases h
  · rintro ⟨⟩ <;> rfl

theorem accepts_bare_iff {b : Bare} {v : Value} : b.accepts v = true ↔ (bare b).Accepts v := by
  constructor
  · intro h
    cases b <;> cases v <;> first | constructor | cases h
  · intro h
    cases h <;> rfl

theorem accepts_oneOf_iff {shapes : List Shape} {v : Value} :
    (oneOf shapes).Accepts v ↔ ∃ s ∈ shapes, s.Accepts v := by
  constructor
  · rintro ⟨⟩
    exact ⟨_, ‹_›, ‹_›⟩
  · rintro ⟨s, hs, h⟩
    exact .oneOf hs h

/-- Where null is not taken directly, a choice accepts what one of its other alternatives does. -/
theorem accepts_alternative_iff {shapes : List Shape} {v : Value}
    (hv : ¬ (v = .null ∧ Shape.null ∈ shapes)) :
    (oneOf shapes).Accepts v ↔ ∃ s ∈ shapes, s.isNull = false ∧ s.Accepts v := by
  rw [accepts_oneOf_iff]
  constructor
  · rintro ⟨s, hs, h⟩
    refine ⟨s, hs, ?_, h⟩
    rw [← Bool.not_eq_true]
    intro hnull
    obtain rfl := eq_null_of_isNull hnull
    exact hv ⟨accepts_null_iff.mp h, hs⟩
  · rintro ⟨s, hs, -, h⟩
    exact ⟨s, hs, h⟩

theorem accepts_record_iff {number : Nat} {name : Text} {fields : List FieldShape}
    {entries : List (Value × Value)} :
    (record number name fields).Accepts (.map entries) ↔
      OnlyKeys (fields.map FieldShape.name) entries ∧ ∀ f ∈ fields, f.Accepts entries := by
  constructor
  · rintro ⟨⟩
    rename_i honly hgiven habsent
    exact ⟨honly, fun f hf => ⟨hgiven f hf, habsent f hf⟩⟩
  · rintro ⟨honly, hfields⟩
    exact .record honly (fun f hf => (hfields f hf).given) fun f hf => (hfields f hf).absent

end Shape

/-! ## Outcomes that tell -/

/-- An outcome tells whether a statement holds: there is a result only if it does, and a fault with
words only if it does not. -/
structure Tells {α : Type} (x : Decoded α) (statement : Prop) : Prop where
  sound : ∀ a, x = .ok a → statement
  complete : ∀ fault, x = .error fault → fault.mismatch ≠ .unwritableKeys → ¬ statement

namespace Tells

variable {α β : Type} {x : Decoded α} {p q : Prop}

theorem ok (a : α) (hp : p) : Tells (.ok a : Decoded α) p where
  sound _ _ := hp
  complete _ h := nomatch h

theorem error {fault : DecodeFault} (h : fault.mismatch ≠ .unwritableKeys → ¬ p) :
    Tells (.error fault : Decoded α) p where
  sound _ h' := nomatch h'
  complete fault' h' := by
    obtain rfl : fault = fault' := Except.error.inj h'
    exact h

theorem mismatch {path : List Text} {m : Mismatch} (hp : ¬ p) :
    Tells (mismatch path m : Decoded α) p :=
  error fun _ => hp

theorem congr (h : Tells x p) (hpq : p ↔ q) : Tells x q where
  sound a hx := hpq.mp (h.sound a hx)
  complete fault hx hwords hq := h.complete fault hx hwords (hpq.mpr hq)

theorem bind {f : α → Decoded β} (hx : Tells x p) (hf : ∀ a, Tells (f a) q) :
    Tells (x >>= f) (p ∧ q) := by
  cases x with
  | ok a =>
    have hp := hx.sound a rfl
    exact (hf a).congr ⟨fun hq => ⟨hp, hq⟩, And.right⟩
  | error fault => exact error fun hwords hpq => hx.complete fault rfl hwords hpq.1

/-- What is made of a result in the end tells nothing more. -/
theorem map {f : α → β} (hx : Tells x p) : Tells (x >>= fun a => .ok (f a)) p :=
  (hx.bind fun a => ok (f a) trivial).congr (and_iff_left trivial)

/-- A step for a key fails without words only. -/
theorem valueStep (path : List Text) (key : Value) : Tells (valueStep path key) True := by
  unfold Phrasebook.valueStep
  split
  · exact ok _ trivial
  · exact error fun hwords => absurd rfl hwords

theorem decodeEach {f : Nat → α → Decoded β} {accepted : α → Prop} {as : List α}
    (h : ∀ a ∈ as, ∀ i, Tells (f i a) (accepted a)) (i : Nat) :
    Tells (decodeEach f i as) (∀ a ∈ as, accepted a) := by
  induction as generalizing i with
  | nil => exact ok [] fun a ha => absurd ha List.not_mem_nil
  | cons a as ih =>
    obtain ⟨ha, has⟩ := List.forall_mem_cons.mp h
    have hrest := ih has (i + 1)
    rw [Phrasebook.decodeEach]
    exact ((ha i).bind fun b => hrest.map).congr List.forall_mem_cons.symm

end Tells

/-! ## Decoding tells what is accepted -/

namespace Shape

/-- Decodes an entry of a mapping, the key before the value. -/
def decodeEntry (key value : Shape) (path : List Text) (entry : Value × Value) :
    Decoded (Value × Value) := do
  let k ← key.decode (path ++ [keyStep]) entry.1
  let step ← valueStep path entry.1
  let w ← value.decode (path ++ [step]) entry.2
  return (k, w)

/-- A mapping is decoded entry by entry. -/
theorem decode_mapOf (key value : Shape) (path : List Text) (entries : List (Value × Value)) :
    (mapOf key value).decode path (.map entries) =
      (decodeEach (fun _ => decodeEntry key value path) 0 entries >>= fun es => .ok (.map es)) :=
  rfl

/-- Where null is not taken directly, the other alternatives of a choice are tried. -/
theorem decode_oneOf_of_not_null {shapes : List Shape} {path : List Text} {v : Value}
    (hv : ¬ (v = .null ∧ Shape.null ∈ shapes)) :
    (oneOf shapes).decode path v = decodeFirst shapes path v ⟨path, .noAlternative⟩ := by
  cases v with
  | null =>
    rw [decode, if_neg]
    intro hnull
    exact hv ⟨rfl, any_isNull_iff.mp hnull⟩
  | _ => rfl

/-- The alternatives of a choice but null are tried in order. -/
theorem tells_decodeFirst {shapes : List Shape} {path : List Text} {v : Value}
    (h : ∀ s ∈ shapes, Tells (s.decode path v) (s.Accepts v)) (fault : DecodeFault) :
    Tells (decodeFirst shapes path v fault) (∃ s ∈ shapes, s.isNull = false ∧ s.Accepts v) := by
  induction shapes generalizing fault with
  | nil =>
    rw [decodeFirst]
    exact .error fun _ ⟨s, hs, _⟩ => absurd hs List.not_mem_nil
  | cons s ss ih =>
    obtain ⟨hs, hss⟩ := List.forall_mem_cons.mp h
    rw [decodeFirst]
    split
    · next hnull =>
      refine (ih hss fault).congr ?_
      simp only [List.mem_cons, exists_eq_or_imp, hnull, Bool.true_eq_false, false_and, false_or]
    · next hnull =>
      rw [Bool.not_eq_true] at hnull
      cases hv : s.decode path v with
      | ok w => exact .ok w ⟨s, List.mem_cons_self .., hnull, hs.sound w hv⟩
      | error e =>
        by_cases hwords : e.mismatch = .unwritableKeys
        · simp only [hwords, if_true]
          exact .error fun hnot => absurd hwords hnot
        · simp only [hwords, if_false]
          have hno : ¬ s.Accepts v := hs.complete e hv hwords
          refine (ih hss e).congr ?_
          simp only [List.mem_cons, exists_eq_or_imp, hnull, hno, and_false, false_or]

/-- A field is decoded from what the mapping holds for it. -/
theorem tells_field {f : FieldShape} (h : ∀ path v, Tells (f.shape.decode path v) (f.shape.Accepts v))
    (path : List Text) (entries : List (Value × Value)) :
    Tells (f.decode path entries) (f.Accepts entries) := by
  cases hv : Value.atText entries f.name with
  | some v =>
    rw [FieldShape.decode_of_some hv]
    refine (h _ v).congr ⟨fun haccepts => ⟨fun u hu => ?_, fun hnone => ?_⟩, fun hf => hf.given v hv⟩
    · obtain rfl : v = u := Option.some.inj (hv.symm.trans hu)
      exact haccepts
    · rw [hv] at hnone
      cases hnone
  | none =>
    have hgiven : ∀ v, Value.atText entries f.name = some v → f.shape.Accepts v := by
      intro v hsome
      rw [hv] at hsome
      cases hsome
    cases hdefault : f.default with
    | some w =>
      rw [FieldShape.decode_of_default hv hdefault]
      exact .ok w ⟨hgiven, fun _ => hdefault ▸ rfl⟩
    | none =>
      rw [FieldShape.decode_of_missing hv hdefault]
      refine .mismatch fun hf => ?_
      have hsome := hf.absent hv
      rw [hdefault] at hsome
      cases hsome

/-- The fields of a record are decoded in order. -/
theorem tells_fields {fields : List FieldShape}
    (h : ∀ f ∈ fields, ∀ path v, Tells (f.shape.decode path v) (f.shape.Accepts v))
    (path : List Text) (entries : List (Value × Value)) :
    Tells (decodeFields fields path entries) (∀ f ∈ fields, f.Accepts entries) := by
  induction fields with
  | nil =>
    rw [decodeFields]
    exact .ok [] fun f hf => absurd hf List.not_mem_nil
  | cons f fields ih =>
    obtain ⟨hf, hfields⟩ := List.forall_mem_cons.mp h
    rw [decodeFields_cons]
    refine ((tells_field hf path entries).bind fun value => (ih hfields).map).congr ?_
    rw [List.forall_mem_cons]

theorem tells_decodeEntry {key value : Shape}
    (hkey : ∀ path v, Tells (key.decode path v) (key.Accepts v))
    (hvalue : ∀ path v, Tells (value.decode path v) (value.Accepts v))
    (path : List Text) (entry : Value × Value) :
    Tells (decodeEntry key value path entry) (key.Accepts entry.1 ∧ value.Accepts entry.2) := by
  refine ((hkey _ entry.1).bind fun k => (Tells.valueStep path entry.1).bind fun step =>
    (hvalue _ entry.2).map).congr ?_
  rw [true_and]

/-- Decoding tells whether a value is accepted, at every path. -/
theorem tells_decode (s : Shape) (path : List Text) (v : Value) :
    Tells (s.decode path v) (s.Accepts v) := by
  induction s using Shape.induct generalizing path v with
  | any => exact .ok v (.any v)
  | unchecked => exact .ok v (.unchecked v)
  | primitive p =>
    rw [decode, ← accepts_primitive_iff]
    split
    · next h => exact .ok v h
    · next h => exact .mismatch h
  | bare b =>
    rw [decode, ← accepts_bare_iff]
    split
    · next h => exact .ok v h
    · next h => exact .mismatch h
  | listOf item ih =>
    cases v with
    | list items =>
      rw [decode]
      refine (Tells.decodeEach (fun v _ i => ih (path ++ [Text.ofNat i]) v) 0).map.congr ?_
      exact ⟨.listOf, fun h => by cases h; assumption⟩
    | _ => exact .mismatch (by rintro ⟨⟩)
  | tupleOf item ih =>
    have hitems : ∀ items, Tells
        (decodeEach (fun i v => item.decode (path ++ [Text.ofNat i]) v) 0 items)
        (∀ v ∈ items, item.Accepts v) := fun items =>
      Tells.decodeEach (fun v _ i => ih (path ++ [Text.ofNat i]) v) 0
    cases v with
    | list items =>
      rw [decode]
      exact (hitems items).map.congr ⟨.tupleOfList, fun h => by cases h; assumption⟩
    | tuple items =>
      rw [decode]
      exact (hitems items).map.congr ⟨.tupleOfTuple, fun h => by cases h; assumption⟩
    | _ => exact .mismatch (by rintro ⟨⟩)
  | mapOf key value ihkey ihvalue =>
    cases v with
    | map entries =>
      rw [decode_mapOf]
      refine (Tells.decodeEach (fun entry _ _ =>
        tells_decodeEntry ihkey ihvalue path entry) 0).map.congr ?_
      constructor
      · intro h
        exact .mapOf (fun entry hentry => (h entry hentry).1) fun entry hentry => (h entry hentry).2
      · rintro ⟨⟩ entry hentry
        rename_i hkeys hvalues
        exact ⟨hkeys entry hentry, hvalues entry hentry⟩
    | _ => exact .mismatch (by rintro ⟨⟩)
  | oneOf shapes ih =>
    have hfirst := tells_decodeFirst (fun s hs => ih s hs path v) ⟨path, .noAlternative⟩
    by_cases hnull : v = .null ∧ Shape.null ∈ shapes
    · obtain ⟨rfl, hmem⟩ := hnull
      rw [decode, if_pos (any_isNull_iff.mpr hmem)]
      exact .ok Value.null (.oneOf hmem .null)
    · rw [decode_oneOf_of_not_null hnull]
      exact hfirst.congr (accepts_alternative_iff hnull).symm
  | record number name fields ih =>
    cases v with
    | map entries =>
      rw [decode]
      split
      · next hknown =>
        refine (tells_fields ih path entries).map.congr ?_
        rw [accepts_record_iff, ← unknownKeys_eq_nil_iff, ← List.isEmpty_iff]
        exact (and_iff_right hknown).symm
      · next hunknown =>
        refine .mismatch fun h => hunknown ?_
        exact List.isEmpty_iff.mpr (unknownKeys_eq_nil_iff.mpr (accepts_record_iff.mp h).1)
    | _ => exact .mismatch (by rintro ⟨⟩)
  | model m =>
    cases v with
    | map entries =>
      rw [decode]
      cases hread : m.read entries with
      | ok w => exact .ok w (.model hread)
      | error faults =>
        refine .mismatch ?_
        rintro ⟨⟩
        rename_i h
        rw [hread] at h
        cases h
    | _ => exact .mismatch (by rintro ⟨⟩)

end Shape

/-! ## Values that can be written -/

namespace Value

/-- What a mapping holds at a text is the value of one of its entries. -/
theorem exists_mem_of_atText {entries : List (Value × Value)} {name : Text} {v : Value}
    (h : atText entries name = some v) : ∃ entry ∈ entries, entry.2 = v := by
  obtain ⟨entry, hfind, rfl⟩ := Option.map_eq_some_iff.mp h
  exact ⟨entry, List.mem_of_find?_eq_some hfind, rfl⟩

theorem isWritable_of_allWritable {items : List Value} (h : allWritable items = true) :
    ∀ v ∈ items, v.isWritable = true := by
  induction items with
  | nil => exact fun v hv => absurd hv List.not_mem_nil
  | cons item items ih =>
    obtain ⟨hitem, hitems⟩ := Bool.and_eq_true_iff.mp h
    exact List.forall_mem_cons.mpr ⟨hitem, ih hitems⟩

theorem isWritable_of_entriesWritable {entries : List (Value × Value)}
    (h : entriesWritable entries = true) :
    ∀ entry ∈ entries, entry.1.isWritable = true ∧ entry.2.isWritable = true := by
  induction entries with
  | nil => exact fun entry hentry => absurd hentry List.not_mem_nil
  | cons entry entries ih =>
    obtain ⟨hentry, hentries⟩ := Bool.and_eq_true_iff.mp h
    exact List.forall_mem_cons.mpr ⟨Bool.and_eq_true_iff.mp hentry, ih hentries⟩

end Value

namespace Shape

theorem keysWritableAll_of_forall {shapes : List Shape} {v : Value}
    (h : ∀ s ∈ shapes, s.KeysWritable v) : KeysWritableAll shapes v := by
  induction shapes with
  | nil => trivial
  | cons s ss ih =>
    obtain ⟨hs, hss⟩ := List.forall_mem_cons.mp h
    exact ⟨hs, ih hss⟩

theorem keysWritableFields_of_forall {fields : List FieldShape} {entries : List (Value × Value)}
    (h : ∀ f ∈ fields, ∀ entry ∈ entries, f.shape.KeysWritable entry.2) :
    KeysWritableFields fields entries := by
  induction fields with
  | nil => trivial
  | cons f fields ih =>
    obtain ⟨hf, hfields⟩ := List.forall_mem_cons.mp h
    cases f
    refine ⟨fun v hv => ?_, ih hfields⟩
    obtain ⟨entry, hentry, rfl⟩ := Value.exists_mem_of_atText hv
    exact hf entry hentry

/-- In a value that can be written all keys can be written, whatever a shape looks into. -/
theorem keysWritable_of_isWritable {s : Shape} {v : Value} (h : v.isWritable = true) :
    s.KeysWritable v := by
  induction s using Shape.induct generalizing v with
  | listOf item ih =>
    cases v with
    | list items => exact fun w hw => ih (Value.isWritable_of_allWritable h w hw)
    | _ => trivial
  | tupleOf item ih =>
    cases v with
    | list items => exact fun w hw => ih (Value.isWritable_of_allWritable h w hw)
    | tuple items => exact fun w hw => ih (Value.isWritable_of_allWritable h w hw)
    | _ => trivial
  | mapOf key value ihkey ihvalue =>
    cases v with
    | map entries =>
      intro entry hentry
      obtain ⟨hkey, hvalue⟩ := Value.isWritable_of_entriesWritable h entry hentry
      exact ⟨hkey, ihkey hkey, ihvalue hvalue⟩
    | _ => trivial
  | oneOf shapes ih => exact keysWritableAll_of_forall fun s hs => ih s hs h
  | record number name fields ih =>
    cases v with
    | map entries =>
      have hentries := Value.isWritable_of_entriesWritable h
      refine ⟨fun entry hentry => (hentries entry hentry).1, keysWritableFields_of_forall ?_⟩
      exact fun f hf entry hentry => ih f hf (hentries entry hentry).2
    | _ => trivial
  | any => trivial
  | unchecked => trivial
  | primitive p => trivial
  | bare b => trivial
  | model m => trivial

end Shape

end Phrasebook
