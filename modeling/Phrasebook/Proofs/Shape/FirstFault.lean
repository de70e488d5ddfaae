/-
# Phrasebook.Proofs.Shape.FirstFault -- where a fault is found

`Shape.FirstFault` relates a value that a shape does not accept to a path into it and to what is wrong
at its end.  Each rule goes one step of the path: to an item of a list, to a key or a value of a
mapping, to a field of a record.  Its premises say that all that comes before this step is accepted,
the items and entries in front, the key before its value, the fields declared earlier, and the keys of
the record as a whole.  At the end of the path the value is refused by the outermost check of its
shape, or a record lacks a field.

A choice between alternatives reports the fault of the last one that it tried, so that nothing of this
holds of choices in general.  A choice between one shape and null is as good as the shape.
-/
import Phrasebook.Proofs.Shape.Accepts

namespace Phrasebook

namespace Shape

open Value (atText)

/-! ## The rules -/

/-- A shape whose choices are all between one shape and null, and which has no model in it. -/
inductive Single : Shape → Prop
  | any : Single .any
  | unchecked : Single .unchecked
  | primitive (p : Primitive) : Single (.primitive p)
  | bare (b : Bare) : Single (.bare b)
  | listOf {item : Shape} : Single item → Single (.listOf item)
  | tupleOf {item : Shape} : Single item → Single (.tupleOf item)
  | mapOf {key value : Shape} : Single key → Single value → Single (.mapOf key value)
  | orNull {shapes : List Shape} {s : Shape} :
      shapes.filter (fun t => !t.isNull) = [s] → Single s → Single (.oneOf shapes)
  | record {number : Nat} {name : Text} {fields : List FieldShape} :
      (∀ f ∈ fields, Single f.shape) → Single (.record number name fields)

/-- The outermost check of a shape refuses a value: it has the wrong type, or unknown keys. -/
inductive Refuses : Shape → Value → Mismatch → Prop
  | primitive {p : Primitive} {v : Value} :
      ¬ (primitive p).Accepts v → Refuses (.primitive p) v (.expected p.name v.typeName)
  | bare {b : Bare} {v : Value} :
      ¬ (bare b).Accepts v → Refuses (.bare b) v (.notOfClass v.typeName b.name)
  | listOf {item : Shape} {v : Value} :
      (∀ items, v ≠ .list items) → Refuses (.listOf item) v (.expected "list" v.typeName)
  | tupleOf {item : Shape} {v : Value} :
      (∀ items, v ≠ .list items) → (∀ items, v ≠ .tuple items) →
      Refuses (.tupleOf item) v (.expected "list" v.typeName)
  | mapOf {key value : Shape} {v : Value} :
      (∀ entries, v ≠ .map entries) → Refuses (.mapOf key value) v (.expected "mapping" v.typeName)
  | record {number : Nat} {name : Text} {fields : List FieldShape} {v : Value} :
      (∀ entries, v ≠ .map entries) →
      Refuses (.record number name fields) v (.expected "mapping" v.typeName)
  | unknown {number : Nat} {name : Text} {fields : List FieldShape}
      {entries : List (Value × Value)} :
      ¬ OnlyKeys (fields.map FieldShape.name) entries →
      Refuses (.record number name fields) (.map entries)
        (.unknownKeys (Text.sort ((unknownKeys fields entries).map Value.display)))

/-- A path into a value that leads to its first fault, and the fault. -/
inductive FirstFault : Shape → Value → List Text → Mismatch → Prop
  | here {s : Shape} {v : Value} {m : Mismatch} : Refuses s v m → FirstFault s v [] m
  | item {item : Shape} {before after : List Value} {v : Value} {path : List Text} {m : Mismatch} :
      (∀ u ∈ before, item.Accepts u) → FirstFault item v path m →
      FirstFault (.listOf item) (.list (before ++ v :: after))
        (Text.ofNat before.length :: path) m
  | itemOfList {item : Shape} {before after : List Value} {v : Value} {path : List Text}
      {m : Mismatch} :
      (∀ u ∈ before, item.Accepts u) → FirstFault item v path m →
      FirstFault (.tupleOf item) (.list (before ++ v :: after))
        (Text.ofNat before.length :: path) m
  | itemOfTuple {item : Shape} {before after : List Value} {v : Value} {path : List Text}
      {m : Mismatch} :
      (∀ u ∈ before, item.Accepts u) → FirstFault item v path m →
      FirstFault (.tupleOf item) (.tuple (before ++ v :: after))
        (Text.ofNat before.length :: path) m
  | key {key value : Shape} {before after : List (Value × Value)} {k v : Value}
      {path : List Text} {m : Mismatch} :
      (∀ entry ∈ before, key.Accepts entry.1 ∧ value.Accepts entry.2) →
      FirstFault key k path m →
      FirstFault (.mapOf key value) (.map (before ++ (k, v) :: after)) (keyStep :: path) m
  | value {key value : Shape} {before after : List (Value × Value)} {k v : Value}
      {path : List Text} {m : Mismatch} :
      (∀ entry ∈ before, key.Accepts entry.1 ∧ value.Accepts entry.2) → key.Accepts k →
      FirstFault value v path m →
      FirstFault (.mapOf key value) (.map (before ++ (k, v) :: after)) (k.display :: path) m
  | orNull {shapes : List Shape} {s : Shape} {v : Value} {path : List Text} {m : Mismatch} :
      shapes.filter (fun t => !t.isNull) = [s] → ¬ (v = .null ∧ Shape.null ∈ shapes) →
      FirstFault s v path m → FirstFault (.oneOf shapes) v path m
  | field {number : Nat} {name : Text} {before after : List FieldShape} {f : FieldShape}
      {entries : List (Value × Value)} {v : Value} {path : List Text} {m : Mismatch} :
      OnlyKeys ((before ++ f :: after).map FieldShape.name) entries →
      (∀ g ∈ before, g.Accepts entries) → atText entries f.name = some v →
      FirstFault f.shape v path m →
      FirstFault (.record number name (before ++ f :: after)) (.map entries) (f.name :: path) m
  | missing {number : Nat} {name : Text} {before after : List FieldShape} {f : FieldShape}
      {entries : List (Value × Value)} :
      OnlyKeys ((before ++ f :: after).map FieldShape.name) entries →
      (∀ g ∈ before, g.Accepts entries) → atText entries f.name = none → f.default = none →
      FirstFault (.record number name (before ++ f :: after)) (.map entries) [f.name] .missingField

/-! ## What fails first -/

/-- A list fails at one of its items, those in front of it being decoded. -/
theorem decodeEach_eq_error {α β : Type} {f : Nat → α → Decoded β} {i : Nat} {as : List α}
    {fault : DecodeFault} (h : decodeEach f i as = .error fault) :
    ∃ before a after, as = before ++ a :: after ∧ (∀ b ∈ before, ∃ j c, f j b = .ok c) ∧
      f (i + before.length) a = .error fault := by
  induction as generalizing i with
  | nil => cases h
  | cons a as ih =>
    rw [decodeEach, bind_eq_error_iff] at h
    rcases h with ha | ⟨b, hb, h⟩
    · exact ⟨[], a, as, rfl, fun b hb => absurd hb List.not_mem_nil, ha⟩
    · rw [bind_eq_error_iff] at h
      rcases h with hrest | ⟨bs, -, h⟩
      · obtain ⟨before, c, after, rfl, hbefore, hc⟩ := ih hrest
        refine ⟨a :: before, c, after, rfl, List.forall_mem_cons.mpr ⟨⟨i, b, hb⟩, hbefore⟩, ?_⟩
        rw [List.length_cons, Nat.add_comm before.length, ← Nat.add_assoc]
        exact hc
      · cases h

/-- A record fails at one of its fields, those declared earlier being decoded. -/
theorem decodeFields_eq_error {fields : List FieldShape} {path : List Text}
    {entries : List (Value × Value)} {fault : DecodeFault}
    (h : decodeFields fields path entries = .error fault) :
    ∃ before f after, fields = before ++ f :: after ∧
      (∀ g ∈ before, ∃ w, g.decode path entries = .ok w) ∧
      f.decode path entries = .error fault := by
  induction fields with
  | nil =>
    rw [decodeFields] at h
    cases h
  | cons f fields ih =>
    rw [decodeFields_cons, bind_eq_error_iff] at h
    rcases h with hf | ⟨w, hw, h⟩
    · exact ⟨[], f, fields, rfl, fun g hg => absurd hg List.not_mem_nil, hf⟩
    · rw [bind_eq_error_iff] at h
      rcases h with hrest | ⟨ws, -, h⟩
      · obtain ⟨before, g, after, rfl, hbefore, hg⟩ := ih hrest
        exact ⟨f :: before, g, after, rfl, List.forall_mem_cons.mpr ⟨⟨w, hw⟩, hbefore⟩, hg⟩
      · cases h

theorem valueStep_eq_ok {path : List Text} {key : Value} {step : Text}
    (h : valueStep path key = .ok step) : step = key.display := by
  unfold valueStep at h
  split at h
  · exact (Except.ok.inj h).symm
  · cases h

theorem valueStep_eq_error {path : List Text} {key : Value} {fault : DecodeFault}
    (h : valueStep path key = .error fault) : fault.mismatch = .unwritableKeys := by
  unfold valueStep at h
  split at h
  · cases h
  · rw [← Except.error.inj h]

/-- An entry that fails with words fails at its key, or else at its value. -/
theorem decodeEntry_eq_error {key value : Shape} {path : List Text} {entry : Value × Value}
    {fault : DecodeFault} (h : decodeEntry key value path entry = .error fault)
    (hwords : fault.mismatch ≠ .unwritableKeys) :
    key.decode (path ++ [keyStep]) entry.1 = .error fault ∨
      (∃ k, key.decode (path ++ [keyStep]) entry.1 = .ok k) ∧
        value.decode (path ++ [entry.1.display]) entry.2 = .error fault := by
  rw [decodeEntry, bind_eq_error_iff] at h
  rcases h with hkey | ⟨k, hk, h⟩
  · exact Or.inl hkey
  · refine Or.inr ⟨⟨k, hk⟩, ?_⟩
    rw [bind_eq_error_iff] at h
    rcases h with hstep | ⟨step, hstep, h⟩
    · exact absurd (valueStep_eq_error hstep) hwords
    · rw [valueStep_eq_ok hstep] at h
      rcases bind_eq_error_iff.mp h with hvalue | ⟨w, -, h⟩
      · exact hvalue
      · cases h

/-- Where all alternatives are null, the fault in waiting is given. -/
theorem decodeFirst_nulls {shapes : List Shape} (h : shapes.filter (fun t => !t.isNull) = [])
    (path : List Text) (v : Value) (fault : DecodeFault) :
    decodeFirst shapes path v fault = .error fault := by
  induction shapes with
  | nil => rw [decodeFirst]
  | cons s ss ih =>
    have hs : s.isNull = true := by
      simpa using List.filter_eq_nil_iff.mp h s (List.mem_cons_self ..)
    rw [decodeFirst, if_pos hs]
    apply ih
    simpa [hs] using h

/-- A choice between one shape and null tries the shape. -/
theorem decodeFirst_single {shapes : List Shape} {s : Shape}
    (h : shapes.filter (fun t => !t.isNull) = [s]) (path : List Text) (v : Value)
    (fault : DecodeFault) : decodeFirst shapes path v fault = s.decode path v := by
  induction shapes with
  | nil => cases h
  | cons t ts ih =>
    rw [decodeFirst]
    split
    · next ht =>
      apply ih
      simpa [ht] using h
    · next ht =>
      rw [Bool.not_eq_true] at ht
      have hcons : t :: ts.filter (fun t => !t.isNull) = [s] := by simpa [ht] using h
      obtain ⟨rfl, hnulls⟩ := List.cons_eq_cons.mp hcons
      cases hv : t.decode path v with
      | ok w => rfl
      | error e =>
        simp only [decodeFirst_nulls hnulls, ite_self]

/-! ## Every fault is the first -/

/-- A fault is at the end of a path that is continued by a walk to it. -/
def Found (s : Shape) (path : List Text) (v : Value) (fault : DecodeFault) : Prop :=
  ∃ suffix, fault.path = path ++ suffix ∧ s.FirstFault v suffix fault.mismatch

theorem found_here {s : Shape} {path : List Text} {v : Value} {m : Mismatch} {fault : DecodeFault}
    (h : (mismatch path m : Decoded Value) = .error fault) (hrefuses : s.Refuses v m) :
    s.Found path v fault := by
  obtain rfl : ⟨path, m⟩ = fault := Except.error.inj h
  exact ⟨[], (List.append_nil path).symm, .here hrefuses⟩

/-- A fault that is found behind a step is found before it. -/
theorem Found.step {s t : Shape} {path : List Text} {u v : Value} {name : Text}
    {fault : DecodeFault} (h : t.Found (path ++ [name]) u fault)
    (hstep : ∀ suffix, t.FirstFault u suffix fault.mismatch →
      s.FirstFault v (name :: suffix) fault.mismatch) : s.Found path v fault := by
  obtain ⟨suffix, hpath, hfault⟩ := h
  refine ⟨name :: suffix, ?_, hstep suffix hfault⟩
  rw [hpath, List.append_assoc]
  rfl

theorem accepts_of_decode {s : Shape} {path : List Text} {v w : Value}
    (h : s.decode path v = .ok w) : s.Accepts v :=
  (tells_decode s path v).sound w h

/-- The items of a list fail at one of them. -/
theorem found_item {item : Shape} {path : List Text} {items : List Value} {fault : DecodeFault}
    (ih : ∀ {path v}, item.decode path v = .error fault → item.Found path v fault)
    (h : decodeEach (fun i v => item.decode (path ++ [Text.ofNat i]) v) 0 items = .error fault) :
    ∃ before v after, items = before ++ v :: after ∧ (∀ u ∈ before, item.Accepts u) ∧
      item.Found (path ++ [Text.ofNat before.length]) v fault := by
  obtain ⟨before, v, after, rfl, hbefore, hv⟩ := decodeEach_eq_error h
  rw [Nat.zero_add] at hv
  refine ⟨before, v, after, rfl, fun u hu => ?_, ih hv⟩
  obtain ⟨j, w, hw⟩ := hbefore u hu
  exact accepts_of_decode hw

/-- The last step of a sequence makes no fault. -/
theorem error_of_bind_ok {α β : Type} {x : Decoded α} {f : α → β} {fault : DecodeFault}
    (h : (x >>= fun a => .ok (f a)) = .error fault) : x = .error fault := by
  rcases bind_eq_error_iff.mp h with hx | ⟨a, -, h⟩
  · exact hx
  · cases h

/-- Unknown keys that are refused with words are all named. -/
theorem ofUnknown_eq {keys : List Value} (h : Mismatch.ofUnknown keys ≠ .unwritableKeys) :
    Mismatch.ofUnknown keys = .unknownKeys (Text.sort (keys.map Value.display)) := by
  unfold Mismatch.ofUnknown at h ⊢
  split
  · rfl
  · next hall =>
    rw [if_neg hall] at h
    exact absurd rfl h

/-- The entries of a mapping fail at one of them, at its key or else at its value. -/
theorem found_entry {key value : Shape} {path : List Text} {entries : List (Value × Value)}
    {fault : DecodeFault}
    (ihkey : ∀ {path v}, key.decode path v = .error fault → key.Found path v fault)
    (ihvalue : ∀ {path v}, value.decode path v = .error fault → value.Found path v fault)
    (h : decodeEach (fun _ entry => decodeEntry key value path entry) 0 entries = .error fault)
    (hwords : fault.mismatch ≠ .unwritableKeys) :
    (mapOf key value).Found path (.map entries) fault := by
  obtain ⟨before, ⟨k, u⟩, after, rfl, hbefore, hentry⟩ := decodeEach_eq_error h
  have haccepts : ∀ entry ∈ before, key.Accepts entry.1 ∧ value.Accepts entry.2 := by
    intro entry hmem
    obtain ⟨_, result, hresult⟩ := hbefore entry hmem
    exact (tells_decodeEntry (tells_decode key) (tells_decode value) path entry).sound _ hresult
  rcases decodeEntry_eq_error hentry hwords with hkey | ⟨⟨w, hw⟩, hvalue⟩
  · exact (ihkey hkey).step fun suffix => .key haccepts
  · exact (ihvalue hvalue).step fun suffix => .value haccepts (accepts_of_decode hw)

/-- The fields of a record without unknown keys fail at one of them, which is wrong or missing. -/
theorem found_field {number : Nat} {name : Text} {fields : List FieldShape} {path : List Text}
    {entries : List (Value × Value)} {fault : DecodeFault}
    (ih : ∀ f ∈ fields, ∀ {path v}, f.shape.decode path v = .error fault →
      f.shape.Found path v fault)
    (honly : OnlyKeys (fields.map FieldShape.name) entries)
    (h : decodeFields fields path entries = .error fault) :
    (record number name fields).Found path (.map entries) fault := by
  obtain ⟨before, f, after, rfl, hbefore, hf⟩ := decodeFields_eq_error h
  have haccepts : ∀ g ∈ before, g.Accepts entries := by
    intro g hg
    obtain ⟨w, hw⟩ := hbefore g hg
    exact (tells_field (tells_decode g.shape) path entries).sound w hw
  cases hgiven : atText entries f.name with
  | some v =>
    rw [FieldShape.decode_of_some hgiven] at hf
    have hfound := ih f (List.mem_append_right _ (List.mem_cons_self ..)) hf
    exact hfound.step fun suffix => .field honly haccepts hgiven
  | none =>
    cases hdefault : f.default with
    | some w =>
      rw [FieldShape.decode_of_default hgiven hdefault] at hf
      cases hf
    | none =>
      rw [FieldShape.decode_of_missing hgiven hdefault] at hf
      obtain rfl := Except.error.inj hf
      exact ⟨[f.name], rfl, .missing honly haccepts hgiven hdefault⟩

/-- A fault with words is the first fault of the value, and its path leads there from the path at
which the value is. -/
theorem firstFault_of_decode {s : Shape} (hs : s.Single) {path : List Text} {v : Value}
    {fault : DecodeFault} (h : s.decode path v = .error fault)
    (hwords : fault.mismatch ≠ .unwritableKeys) :
    ∃ suffix, fault.path = path ++ suffix ∧ s.FirstFault v suffix fault.mismatch := by
  show s.Found path v fault
  -- Each case takes one step of the path; the rest of it is what the induction gives.
  induction hs generalizing path v with
  | any => cases h
  | unchecked => cases h
  | primitive p =>
    rw [decode] at h
    split at h
    · cases h
    · next hno => exact found_here h (.primitive (mt accepts_primitive_iff.mpr hno))
  | bare b =>
    rw [decode] at h
    split at h
    · cases h
    · next hno => exact found_here h (.bare (mt accepts_bare_iff.mpr hno))
  | listOf _ ih =>
    cases v with
    | list items =>
      obtain ⟨before, v, after, rfl, hbefore, hfound⟩ := found_item ih (error_of_bind_ok h)
      exact hfound.step fun suffix => .item hbefore
    | _ => exact found_here h (.listOf fun items h => nomatch h)
  | tupleOf _ ih =>
    cases v with
    | list items =>
      obtain ⟨before, v, after, rfl, hbefore, hfound⟩ := found_item ih (error_of_bind_ok h)
      exact hfound.step fun suffix => .itemOfList hbefore
    | tuple items =>
      obtain ⟨before, v, after, rfl, hbefore, hfound⟩ := found_item ih (error_of_bind_ok h)
      exact hfound.step fun suffix => .itemOfTuple hbefore
    | _ => exact found_here h (.tupleOf (fun items h => nomatch h) fun items h => nomatch h)
  | @mapOf key value _ _ ihkey ihvalue =>
    cases v with
    | map entries =>
      rw [decode_mapOf] at h
      exact found_entry ihkey ihvalue (error_of_bind_ok h) hwords
    | _ => exact found_here h (.mapOf fun entries h => nomatch h)
  | @orNull shapes s hsingle _ ih =>
    have hnull : ¬ (v = .null ∧ Shape.null ∈ shapes) := by
      rintro ⟨rfl, hmem⟩
      rw [decode, if_pos (any_isNull_iff.mpr hmem)] at h
      cases h
    rw [decode_oneOf_of_not_null hnull, decodeFirst_single hsingle] at h
    obtain ⟨suffix, hpath, hfault⟩ := ih h
    exact ⟨suffix, hpath, .orNull hsingle hnull hfault⟩
  | @record number name fields _ ih =>
    cases v with
    | map entries =>
      rw [decode] at h
      split at h
      · next hknown =>
        have honly := unknownKeys_eq_nil_iff.mp (List.isEmpty_iff.mp hknown)
        exact found_field ih honly (error_of_bind_ok h)
      · next hunknown =>
        have honly : ¬ OnlyKeys (fields.map FieldShape.name) entries := fun honly =>
          hunknown (List.isEmpty_iff.mpr (unknownKeys_eq_nil_iff.mpr honly))
        obtain rfl := Except.error.inj h
        refine found_here rfl ?_
        rw [ofUnknown_eq hwords]
        exact .unknown honly
    | _ => exact found_here h (.record fun entries h => nomatch h)

/-- A record with a list of records that have a name each. -/
def nameList : Shape :=
  .record 0 "List" [⟨"entries", .listOf (.record 0 "Entry" [⟨"name", .primitive .text, none⟩]), none⟩]

/-- A list of two names of which the second is a number. -/
def wrongName : Value :=
  .map [(.text "entries", .list [.map [(.text "name", .text "ada")], .map [(.text "name", .int 7)]])]

theorem single_nameList : nameList.Single := by
  refine .record (List.forall_mem_singleton.mpr ?_)
  exact .listOf (.record (List.forall_mem_singleton.mpr (.primitive .text)))

/-- The fault is at the name of the second entry. -/
theorem firstFault_wrongName :
    nameList.Single ∧
      nameList.decode [] wrongName =
        .error ⟨["entries", "1", "name"], .expected "str" "int"⟩ ∧
      nameList.FirstFault wrongName ["entries", "1", "name"] (.expected "str" "int") := by
  have hdecode : nameList.decode [] wrongName =
      .error ⟨["entries", "1", "name"], .expected "str" "int"⟩ := by rfl
  obtain ⟨suffix, rfl, hfault⟩ := firstFault_of_decode single_nameList hdecode (by decide)
  exact ⟨single_nameList, hdecode, hfault⟩

end Shape

end Phrasebook
