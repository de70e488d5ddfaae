/-
# Phrasebook.Proofs.Shape.RawForm -- typed values and the data they are decoded from

A typed value can be written down as plain data: its records as mappings from the names of their
fields, its tuples as lists (`Value.raw`).  Decoded as its type, the data gives the value back.

What equals its default need not be written.  `Shape.RawForm` says by rules, one for each way of
forming a type, which data stands for a value: from the mapping of a record any fields may be left out
that equal their defaults, in every record and at any depth.  The fields that are left out come back as
their defaults, and so the decoded value equals the one that was written.  It is the same one, if the
fields left out were the same as their defaults.

Every field of a record is given by the entry of its name or by its default, as records are plain.
Dataclasses with `init=False` fields or a `__post_init__`, and recursive ones, are outside the model.
-/
import Phrasebook.Proofs.PhraseFile
import Phrasebook.Proofs.Value.Equal

namespace Phrasebook

/-! ## Values as data -/

namespace Value

mutual

/-- A value as plain data. -/
def raw : Value → Value
  | list items => .list (raws items)
  | tuple items => .list (raws items)
  | map entries => .map (rawEntries entries)
  | record _ fields => .map (rawFields fields)
  | v => v

/-- Values as plain data. -/
def raws : List Value → List Value
  | [] => []
  | v :: vs => raw v :: raws vs

/-- The entries of a mapping as plain data, the keys being left as they are. -/
def rawEntries : List (Value × Value) → List (Value × Value)
  | [] => []
  | (key, v) :: entries => (key, raw v) :: rawEntries entries

/-- The fields of a record as entries of a mapping. -/
def rawFields : List (Text × Value) → List (Value × Value)
  | [] => []
  | (name, v) :: fields => (.text name, raw v) :: rawFields fields

end

theorem raws_eq (vs : List Value) : raws vs = vs.map raw := by
  induction vs with
  | nil => rfl
  | cons v vs ih => rw [raws, ih, List.map_cons]

theorem rawEntries_eq (entries : List (Value × Value)) :
    rawEntries entries = entries.map fun entry => (entry.1, entry.2.raw) := by
  induction entries with
  | nil => rfl
  | cons entry entries ih => rw [rawEntries, ih, List.map_cons]

theorem rawFields_eq (fields : List (Text × Value)) :
    rawFields fields = fields.map fun field => (.text field.1, field.2.raw) := by
  induction fields with
  | nil => rfl
  | cons field fields ih => rw [rawFields, ih, List.map_cons]

end Value

namespace Shape

open Value (atText IsCongruence)

/-! ## Typed values and their raw forms -/

/-- The values of the types that are formed of scalars, lists, tuples, mappings from texts, records
with distinct fields, and options.  A truth value is no integer, and an integer no real number. -/
inductive HasType : Shape → Value → Prop
  | primitive {p : Primitive} {v : Value} : (primitive p).Accepts v → HasType (.primitive p) v
  | listOf {item : Shape} {items : List Value} :
      (∀ v ∈ items, HasType item v) → HasType (.listOf item) (.list items)
  | tupleOf {item : Shape} {items : List Value} :
      (∀ v ∈ items, HasType item v) → HasType (.tupleOf item) (.tuple items)
  | mapOf {value : Shape} {entries : List (Value × Value)} :
      (∀ entry ∈ entries, ∃ key, entry.1 = .text key) →
      (∀ entry ∈ entries, HasType value entry.2) →
      HasType (.mapOf (.primitive .text) value) (.map entries)
  | null {s : Shape} : HasType (.oneOf [s, .null]) .null
  | given {s : Shape} {v : Value} : HasType s v → HasType (.oneOf [s, .null]) v
  | record {number : Nat} {name : Text} {fields : List FieldShape} {values : List (Text × Value)} :
      (fields.map FieldShape.name).Nodup → values.map Prod.fst = fields.map FieldShape.name →
      (∀ f value, (f, value) ∈ fields.zip values → HasType f.shape value.2) →
      HasType (.record number name fields) (.record name values)

/-- The data that stands for a typed value.  A mapping for a record has no keys but the fields of the
record, in any order; it may lack those whose defaults equal what the record holds. -/
inductive RawForm (equal : Value → Value → Prop) : Shape → Value → Value → Prop
  | primitive {p : Primitive} {v : Value} :
      (primitive p).Accepts v → RawForm equal (.primitive p) v v
  | listOf {item : Shape} {items data : List Value} :
      data.length = items.length →
      (∀ r v, (r, v) ∈ data.zip items → RawForm equal item v r) →
      RawForm equal (.listOf item) (.list items) (.list data)
  | tupleOf {item : Shape} {items data : List Value} :
      data.length = items.length →
      (∀ r v, (r, v) ∈ data.zip items → RawForm equal item v r) →
      RawForm equal (.tupleOf item) (.tuple items) (.list data)
  | mapOf {value : Shape} {entries data : List (Value × Value)} :
      (∀ entry ∈ data, ∃ key, entry.1 = .text key) →
      data.map Prod.fst = entries.map Prod.fst →
      (∀ r entry, (r, entry) ∈ data.zip entries → RawForm equal value entry.2 r.2) →
      RawForm equal (.mapOf (.primitive .text) value) (.map entries) (.map data)
  | null {s : Shape} : RawForm equal (.oneOf [s, .null]) .null .null
  | given {s : Shape} {v r : Value} : RawForm equal s v r → RawForm equal (.oneOf [s, .null]) v r
  | record {number : Nat} {name : Text} {fields : List FieldShape} {values : List (Text × Value)}
      {entries : List (Value × Value)} :
      OnlyKeys (fields.map FieldShape.name) entries →
      values.map Prod.fst = fields.map FieldShape.name →
      (∀ f value r, (f, value) ∈ fields.zip values → atText entries f.name = some r →
        RawForm equal f.shape value.2 r) →
      (∀ f value, (f, value) ∈ fields.zip values → atText entries f.name = none →
        ∃ default, f.default = some default ∧ equal default value.2) →
      RawForm equal (.record number name fields) (.record name values) (.map entries)

/-! ## A typed value is written as its data -/

/-- What is written for a field of a record stands under the name of the field. -/
theorem atText_rawFields {values : List (Text × Value)} (h : (values.map Prod.fst).Nodup)
    {value : Text × Value} (hmem : value ∈ values) :
    atText (Value.rawFields values) value.1 = some value.2.raw := by
  induction values with
  | nil => exact absurd hmem List.not_mem_nil
  | cons first values ih =>
    rw [List.map_cons, List.nodup_cons] at h
    rw [Value.rawFields, Value.atText_cons]
    rcases List.mem_cons.mp hmem with rfl | hmem
    · rw [if_pos (Value.sameKey_text_iff.mpr rfl)]
    · have hne : first.1 ≠ value.1 := fun heq => h.1 (heq ▸ List.mem_map_of_mem hmem)
      rw [if_neg, ih h.2 hmem]
      rw [Value.sameKey_text_iff]
      exact fun heq => hne (Value.text.inj heq)

theorem onlyKeys_rawFields (values : List (Text × Value)) :
    OnlyKeys (values.map Prod.fst) (Value.rawFields values) := by
  rw [Value.rawFields_eq]
  intro entry hentry
  obtain ⟨value, hvalue, rfl⟩ := List.mem_map.mp hentry
  exact ⟨value.1, List.mem_map_of_mem hvalue, rfl⟩

/-- Lists whose items agree in what is read off them agree item by item. -/
theorem forall₂_of_map_eq {α β γ : Type} {f : α → γ} {g : β → γ} {as : List α} {bs : List β}
    (h : bs.map g = as.map f) : List.Forall₂ (fun a b => g b = f a) as bs := by
  have hall : List.Forall₂ (· = ·) (as.map f) (bs.map g) := List.forall₂_eq_eq_eq ▸ h.symm
  rw [List.forall₂_map_left_iff, List.forall₂_map_right_iff] at hall
  exact hall.imp fun _ _ => Eq.symm

/-- Two lists that begin with an item each have these side by side. -/
theorem mem_zip_cons {α β : Type} {a x : α} {b y : β} {as : List α} {bs : List β} :
    (x, y) ∈ (a :: as).zip (b :: bs) ↔ x = a ∧ y = b ∨ (x, y) ∈ as.zip bs := by
  rw [List.zip_cons_cons, List.mem_cons, Prod.mk.injEq]

/-- Beside a list stands what has been made of its items. -/
theorem eq_of_mem_zip_map {α β : Type} {g : α → β} {as : List α} {a : α} {b : β}
    (h : (b, a) ∈ (as.map g).zip as) : a ∈ as ∧ b = g a := by
  rw [List.zip_map_left] at h
  obtain ⟨⟨c, d⟩, hcd, heq⟩ := List.mem_map.mp h
  obtain ⟨rfl, rfl⟩ := Prod.mk.inj heq
  obtain rfl := Value.eq_of_mem_zip_self hcd
  exact ⟨(List.of_mem_zip hcd).1, rfl⟩

/-- The whole data of a typed value is a raw form of it. -/
theorem HasType.rawForm {equal : Value → Value → Prop} {s : Shape} {v : Value} (h : s.HasType v) :
    s.RawForm equal v v.raw := by
  induction h with
  | primitive h =>
    cases h <;> exact .primitive (by constructor)
  | listOf _ ih =>
    rw [Value.raw, Value.raws_eq]
    refine .listOf (List.length_map _) fun r v hmem => ?_
    obtain ⟨hv, rfl⟩ := eq_of_mem_zip_map hmem
    exact ih v hv
  | tupleOf _ ih =>
    rw [Value.raw, Value.raws_eq]
    refine .tupleOf (List.length_map _) fun r v hmem => ?_
    obtain ⟨hv, rfl⟩ := eq_of_mem_zip_map hmem
    exact ih v hv
  | mapOf hkeys _ ih =>
    rw [Value.raw, Value.rawEntries_eq]
    refine .mapOf ?_ (by rw [List.map_map]; rfl) fun r entry hmem => ?_
    · intro r hr
      obtain ⟨entry, hentry, rfl⟩ := List.mem_map.mp hr
      exact hkeys entry hentry
    · obtain ⟨hentry, rfl⟩ := eq_of_mem_zip_map hmem
      exact ih entry hentry
  | null => exact .null
  | given _ ih => exact .given ih
  | @record number name fields values hdistinct hnames _ ih =>
    have hheld : ∀ f value, (f, value) ∈ fields.zip values →
        atText (Value.rawFields values) f.name = some value.2.raw := by
      intro f value hmem
      rw [← (List.forall₂_iff_zip.mp (forall₂_of_map_eq hnames)).2 hmem]
      exact atText_rawFields (hnames ▸ hdistinct) (List.of_mem_zip hmem).2
    refine .record (hnames ▸ onlyKeys_rawFields values) hnames (fun f value r hmem hr => ?_)
      fun f value hmem hnone => ?_
    · obtain rfl := Option.some.inj ((hheld f value hmem).symm.trans hr)
      exact ih f value hmem
    · rw [hheld f value hmem] at hnone
      cases hnone

/-! ## Decoding gives the value back -/

/-- Where each item is decoded to something related to what it stands for, all of them are. -/
theorem decodeEach_related {α β γ : Type} {f : Nat → α → Decoded β} {R : β → γ → Prop}
    {as : List α} {cs : List γ}
    (h : List.Forall₂ (fun a c => ∀ i, ∃ b, f i a = .ok b ∧ R b c) as cs) (i : Nat) :
    ∃ bs, decodeEach f i as = .ok bs ∧ List.Forall₂ R bs cs := by
  induction h generalizing i with
  | nil => exact ⟨[], rfl, .nil⟩
  | cons hac _ ih =>
    obtain ⟨b, hb, hrel⟩ := hac i
    obtain ⟨bs, hbs, hrels⟩ := ih (i + 1)
    refine ⟨b :: bs, ?_, .cons hrel hrels⟩
    rw [decodeEach]
    exact bind_eq_ok_iff.mpr ⟨b, hb, bind_eq_ok_iff.mpr ⟨bs, hbs, rfl⟩⟩

/-- The same for the fields of a record. -/
theorem decodeFields_related {equal : Value → Value → Prop} {fields : List FieldShape}
    {path : List Text} {entries : List (Value × Value)} {values : List (Text × Value)}
    (h : List.Forall₂ (fun f value => value.1 = f.name ∧
      ∃ w, f.decode path entries = .ok w ∧ equal w value.2) fields values) :
    ∃ results, decodeFields fields path entries = .ok results ∧
      List.Forall₂ (fun result value => result.1 = value.1 ∧ equal result.2 value.2)
        results values := by
  induction h with
  | nil => exact ⟨[], decodeFields_nil_eq_ok_iff.mpr rfl, .nil⟩
  | cons hfield _ ih =>
    obtain ⟨hname, w, hw, hequal⟩ := hfield
    obtain ⟨results, hresults, hrels⟩ := ih
    exact ⟨_, decodeFields_cons_eq_ok_iff.mpr ⟨w, results, hw, hresults, rfl⟩,
      .cons ⟨hname.symm, hequal⟩ hrels⟩

theorem RawForm.isNull_eq_false {equal : Value → Value → Prop} {s : Shape} {v r : Value}
    (h : s.RawForm equal v r) : s.isNull = false := by
  cases h <;> rfl

/-- A raw form is decoded, at every path, to a value that equals the one it stands for. -/
theorem RawForm.decode {equal : Value → Value → Prop} (hequal : IsCongruence equal) {s : Shape}
    {v r : Value} (h : s.RawForm equal v r) (path : List Text) :
    ∃ w, s.decode path r = .ok w ∧ equal w v := by
  induction h generalizing path with
  | @primitive p v h =>
    refine ⟨v, ?_, hequal.refl v⟩
    rw [Shape.decode, if_pos (accepts_primitive_iff.mpr h)]
  | listOf hlength _ ih =>
    obtain ⟨ws, hws, hrels⟩ := decodeEach_related
      (List.forall₂_iff_zip.mpr ⟨hlength, fun hmem i => ih _ _ hmem (path ++ [Text.ofNat i])⟩) 0
    refine ⟨.list ws, ?_, hequal.list hrels⟩
    rw [Shape.decode]
    exact bind_eq_ok_iff.mpr ⟨ws, hws, rfl⟩
  | tupleOf hlength _ ih =>
    obtain ⟨ws, hws, hrels⟩ := decodeEach_related
      (List.forall₂_iff_zip.mpr ⟨hlength, fun hmem i => ih _ _ hmem (path ++ [Text.ofNat i])⟩) 0
    refine ⟨.tuple ws, ?_, hequal.tuple hrels⟩
    rw [Shape.decode]
    exact bind_eq_ok_iff.mpr ⟨ws, hws, rfl⟩
  | @mapOf value entries data hkeys hsame _ ih =>
    have hentries : List.Forall₂ (fun r entry => ∀ i : Nat, ∃ result,
        decodeEntry (.primitive .text) value path r = .ok result ∧
          (result.1 = entry.1 ∧ equal result.2 entry.2)) data entries := by
      have hkeyed := List.forall₂_iff_zip.mp (forall₂_of_map_eq hsame.symm)
      refine List.forall₂_iff_zip.mpr ⟨hkeyed.1, fun {r entry} hmem i => ?_⟩
      obtain ⟨key, hkey⟩ := hkeys r (List.of_mem_zip hmem).1
      obtain ⟨w, hw, hrel⟩ := ih r entry hmem (path ++ [key])
      refine ⟨(r.1, w), ?_, (hkeyed.2 hmem).symm, hrel⟩
      -- a text is decoded as it is, and makes a step under its own name
      obtain ⟨k, x⟩ := r
      obtain rfl : k = .text key := hkey
      exact bind_eq_ok_iff.mpr
        ⟨.text key, rfl, bind_eq_ok_iff.mpr ⟨key, rfl, bind_eq_ok_iff.mpr ⟨w, hw, rfl⟩⟩⟩
    obtain ⟨results, hresults, hrels⟩ := decodeEach_related hentries 0
    refine ⟨.map results, ?_, hequal.map hrels⟩
    rw [decode_mapOf]
    exact bind_eq_ok_iff.mpr ⟨results, hresults, rfl⟩
  | @null s => exact ⟨.null, decode_orNull_null s path, hequal.refl .null⟩
  | @given s v r h ih =>
    obtain ⟨w, hw, hrel⟩ := ih path
    refine ⟨w, ?_, hrel⟩
    by_cases hr : r = .null
    · subst hr
      obtain rfl := eq_of_decode_isKey s (.plain rfl) hw
      exact decode_orNull_null s path
    · rw [decode_orNull h.isNull_eq_false hr, hw]
  | @record number name fields values entries honly hnames _ homitted ih =>
    have hfields : List.Forall₂ (fun f value => value.1 = f.name ∧
        ∃ w, f.decode path entries = .ok w ∧ equal w value.2) fields values := by
      have hnamed := List.forall₂_iff_zip.mp (forall₂_of_map_eq hnames)
      refine List.forall₂_iff_zip.mpr ⟨hnamed.1, fun {f value} hmem => ⟨hnamed.2 hmem, ?_⟩⟩
      cases hat : atText entries f.name with
      | some r =>
        rw [FieldShape.decode_of_some hat]
        exact ih f value r hmem hat (path ++ [f.name])
      | none =>
        obtain ⟨default, hdefault, hrel⟩ := homitted f value hmem hat
        exact ⟨default, FieldShape.decode_of_default hat hdefault path, hrel⟩
    obtain ⟨results, hresults, hrels⟩ := decodeFields_related hfields
    refine ⟨.record name results, ?_, hequal.record hrels⟩
    rw [decode_record_of_onlyKeys honly]
    exact bind_eq_ok_iff.mpr ⟨results, hresults, rfl⟩

/-- If only such fields are left out that are the same as their defaults, it is the same value. -/
theorem RawForm.decode_eq {s : Shape} {v r : Value} (h : s.RawForm (· = ·) v r)
    (path : List Text) : s.decode path r = .ok v := by
  obtain ⟨w, hw, rfl⟩ := h.decode Value.isCongruence_eq path
  exact hw

end Shape

/-! ## Settings and phrase files -/

theorem Settings.ofRecord_toValue (settings : Settings) :
    Settings.ofRecord settings.toValue = settings := by
  have htexts : Value.texts (.list (settings.imports.map .text)) = settings.imports := by
    show (settings.imports.map Value.text).map (fun item => item.asText?.getD []) = _
    rw [List.map_map]
    exact List.map_id _
  show Settings.mk settings.outputDir (Value.texts (.list (settings.imports.map .text)))
    settings.header settings.validate = settings
  rw [htexts]

/-- Settings are a value of their type. -/
theorem Settings.hasType_toValue (settings : Settings) :
    Settings.shape.HasType settings.toValue := by
  refine .record (by decide) rfl fun f value hmem => ?_
  simp only [Shape.mem_zip_cons, List.zip_nil_right, List.not_mem_nil, or_false] at hmem
  rcases hmem with ⟨rfl, rfl⟩ | ⟨rfl, rfl⟩ | ⟨rfl, rfl⟩ | ⟨rfl, rfl⟩
  · exact .primitive (.text _)
  · refine .listOf fun v hv => ?_
    obtain ⟨t, -, rfl⟩ := List.mem_map.mp hv
    exact .primitive (.text t)
  · exact .primitive (.text _)
  · exact .primitive (.bool _)

/-- Settings are read from each of their raw forms. -/
theorem Settings.ofValue_of_rawForm {settings : Settings} {data : Value}
    (h : Settings.shape.RawForm (· = ·) settings.toValue data) :
    Settings.ofValue data = .ok settings := by
  have hdecode := h.decode_eq []
  cases h with
  | record =>
    rw [Settings.ofValue]
    simp only [Settings.ofEmpty, hdecode, Settings.ofRecord_toValue]

/-- A phrase file is read from each of its raw forms. -/
theorem PhraseFile.read_of_rawForm {file data : Value}
    (h : PhraseFile.shape.RawForm (· = ·) file data) :
    PhraseFile.read data = PhraseFile.batchesOf file := by
  have hdecode := h.decode_eq []
  rw [PhraseFile.shape_eq] at h
  cases h with
  | record =>
    rw [PhraseFile.read]
    simp only [hdecode]

namespace Shape

/-- Every typed value is decoded from its data, at every path, and as well from the data without any
of the fields that are the same as their defaults.  Without fields that equal their defaults it is a
value that equals it.  So settings and phrase files are read from their data, whatever of it that
is the same as a default is left out. -/
theorem decode_raw :
    (∀ (s : Shape) (v : Value), s.HasType v → ∀ path,
      s.decode path v.raw = .ok v ∧
      (∀ data, s.RawForm (· = ·) v data → s.decode path data = .ok v) ∧
      ∀ data, s.RawForm Value.Equal v data → ∃ w, s.decode path data = .ok w ∧ w.Equal v) ∧
    (∀ settings : Settings, Settings.shape.HasType settings.toValue ∧
      Settings.ofValue settings.toValue.raw = .ok settings ∧
      ∀ data, Settings.shape.RawForm (· = ·) settings.toValue data →
        Settings.ofValue data = .ok settings) ∧
    ∀ file, PhraseFile.shape.HasType file →
      PhraseFile.read file.raw = PhraseFile.batchesOf file ∧
      ∀ data, PhraseFile.shape.RawForm (· = ·) file data →
        PhraseFile.read data = PhraseFile.batchesOf file := by
  refine ⟨fun s v hv path => ?any, fun settings => ?settings, fun file hfile => ?phrases⟩
  case any =>
    exact ⟨hv.rawForm.decode_eq path, fun data h => h.decode_eq path,
      fun data h => h.decode Value.isCongruence_equal path⟩
  case settings =>
    have htype := settings.hasType_toValue
    exact ⟨htype, Settings.ofValue_of_rawForm htype.rawForm,
      fun data h => Settings.ofValue_of_rawForm h⟩
  case phrases =>
    exact ⟨PhraseFile.read_of_rawForm hfile.rawForm, fun data h => PhraseFile.read_of_rawForm h⟩

/-! ### A zero with a sign -/

/-- A part with a size, which is one unless something else is said. -/
def part : Shape := .record 0 "Part" [⟨"size", .optional (.primitive .int), some (.int 1)⟩]

/-- A record with a number and with parts in a tuple. -/
def measured : Shape := .record 0 "Measured" [
  ⟨"name", .primitive .text, none⟩,
  ⟨"offset", .primitive .real, some (.real (.finite false 0 Binary64.leastExponent))⟩,
  ⟨"parts", .tupleOf part, some (.tuple [])⟩]

/-- A record whose number is a negative zero, which equals its default and is not the same. -/
def measurement : Value := .record "Measured" [
  ("name", .text "a"),
  ("offset", .real (.finite true 0 Binary64.leastExponent)),
  ("parts", .tuple [.record "Part" [("size", .int 1)], .record "Part" [("size", .null)]])]

/-- The record as data, without the number and without the size of the first part. -/
def sparse : Value := .map [
  (.text "parts", .list [.map [], .map [(.text "size", .null)]]),
  (.text "name", .text "a")]

theorem hasType_part {size : Value} (h : (oneOf [.primitive .int, .null]).HasType size) :
    part.HasType (.record "Part" [("size", size)]) := by
  refine .record (by decide) rfl fun f value hmem => ?_
  obtain ⟨rfl, rfl⟩ := Prod.mk.inj (List.mem_singleton.mp hmem)
  exact h

theorem hasType_measurement : measured.HasType measurement := by
  refine .record (by decide) rfl ?_
  simp only [mem_zip_cons, List.zip_nil_right, List.not_mem_nil, or_false]
  rintro f value (⟨rfl, rfl⟩ | ⟨rfl, rfl⟩ | ⟨rfl, rfl⟩)
  · exact .primitive (.text _)
  · exact .primitive (.real _)
  · refine .tupleOf (List.forall_mem_cons.mpr ⟨?_, List.forall_mem_singleton.mpr ?_⟩)
    · exact hasType_part (.given (.primitive (.int 1)))
    · exact hasType_part .null

theorem rawForm_parts : (tupleOf part).RawForm Value.Equal
    (.tuple [.record "Part" [("size", .int 1)], .record "Part" [("size", .null)]])
    (.list [.map [], .map [(.text "size", .null)]]) := by
  refine .tupleOf rfl ?_
  simp only [mem_zip_cons, List.zip_nil_right, List.not_mem_nil, or_false]
  rintro r v (⟨rfl, rfl⟩ | ⟨rfl, rfl⟩)
  · refine .record (onlyKeys_nil _) rfl (fun f value r _ hr => nomatch hr) fun f value hmem _ => ?_
    obtain ⟨rfl, rfl⟩ := Prod.mk.inj (List.mem_singleton.mp hmem)
    exact ⟨.int 1, rfl, .same _⟩
  · exact (hasType_part .null).rawForm

theorem rawForm_sparse : measured.RawForm Value.Equal measurement sparse := by
  have hkeys : OnlyKeys [("name" : Text), "offset", "parts"]
      [(.text "parts", .list [.map [], .map [(.text "size", .null)]]), (.text "name", .text "a")] :=
    onlyKeys_cons (by decide) _ (onlyKeys_cons (by decide) _ (onlyKeys_nil _))
  refine .record hkeys rfl ?_ ?_
  · simp only [mem_zip_cons, List.zip_nil_right, List.not_mem_nil, or_false]
    rintro f value r (⟨rfl, rfl⟩ | ⟨rfl, rfl⟩ | ⟨rfl, rfl⟩) hr
    · obtain rfl : Value.text "a" = r := Option.some.inj hr
      exact .primitive (.text _)
    · cases hr
    · obtain rfl := Option.some.inj hr
      exact rawForm_parts
  · simp only [mem_zip_cons, List.zip_nil_right, List.not_mem_nil, or_false]
    rintro f value (⟨rfl, rfl⟩ | ⟨rfl, rfl⟩ | ⟨rfl, rfl⟩) hnone
    · cases hnone
    · -- the zeros are equal as numbers
      exact ⟨_, rfl, .key rfl⟩
    · cases hnone

/-- The sparse data gives a record that equals the one it was written for. -/
theorem decode_raw_measurement :
    measured.HasType measurement ∧ measured.RawForm Value.Equal measurement sparse ∧
      measured.decode [] measurement.raw = .ok measurement ∧
      ∃ w, measured.decode [] sparse = .ok w ∧ w.Equal measurement := by
  obtain ⟨hwhole, -, hsparse⟩ := decode_raw.1 measured measurement hasType_measurement []
  exact ⟨hasType_measurement, rawForm_sparse, hwhole, hsparse sparse rawForm_sparse⟩

end Shape

end Phrasebook
