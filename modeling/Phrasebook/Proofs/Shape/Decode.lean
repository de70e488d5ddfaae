/-
# Phrasebook.Proofs.Shape.Decode -- what decoding accepts, and which of its faults have words

What a shape accepts is said by a relation between values and what they stand for: a text, a list of
things, a record.  `Shape.Reads` ties a shape to such a relation in both directions, whatever the
path, and there is one lemma for each way of forming a shape.  A field of a record is tied to a
relation on what the mapping holds for it, which may be nothing.

The other half is about faults.  All faults have words but one: a key that holds an integer of too
many digits cannot be named, neither as an unknown key of a record nor as the place of a value.
`Shape.KeysWritable` excludes such keys from the mappings that a shape looks into, and then no fault
is without words.
-/
import Mathlib.Data.List.Forall2
import Phrasebook.Proofs.Outcome
import Phrasebook.Shape.Decode

namespace Phrasebook

/-! ## Values and what they stand for -/

/-- A text stands for itself. -/
inductive IsText : Value → Text → Prop
  | text (t : Text) : IsText (.text t) t

/-- A list stands for what its items stand for, in order. -/
inductive IsList {α : Type} (R : Value → α → Prop) : Value → List α → Prop
  | list {items : List Value} {as : List α} : List.Forall₂ R items as → IsList R (.list items) as

/-- The entry of a key that has to be there. -/
inductive Required {α : Type} (R : Value → α → Prop) : Option Value → α → Prop
  | given {v : Value} {a : α} : R v a → Required R (some v) a

/-- The entry of a key that may be missing or null. -/
inductive Nullable {α : Type} (R : Value → α → Prop) : Option Value → Option α → Prop
  | absent : Nullable R none none
  | null : Nullable R (some .null) none
  | given {v : Value} {a : α} : R v a → Nullable R (some v) (some a)

/-- The entry of a key that may be missing but not null. -/
inductive Defaulted {α : Type} (R : Value → α → Prop) (default : α) : Option Value → α → Prop
  | absent : Defaulted R default none default
  | given {v : Value} {a : α} : R v a → Defaulted R default (some v) a

/-- A mapping has no keys but texts of a list. -/
def OnlyKeys (names : List Text) (entries : List (Value × Value)) : Prop :=
  ∀ entry ∈ entries, ∃ name ∈ names, entry.1 = .text name

/-- No key is unknown exactly if all keys are names of fields. -/
theorem unknownKeys_eq_nil_iff {fields : List FieldShape} {entries : List (Value × Value)} :
    unknownKeys fields entries = [] ↔ OnlyKeys (fields.map FieldShape.name) entries := by
  simp only [unknownKeys, List.map_eq_nil_iff, List.filter_eq_nil_iff, OnlyKeys, Bool.not_eq_true,
    Bool.not_eq_false', List.any_eq_true, Value.sameKey_text_iff, List.mem_map,
    exists_exists_and_eq_and]

theorem onlyKeys_nil (names : List Text) : OnlyKeys names [] :=
  fun _ h => absurd h List.not_mem_nil

theorem onlyKeys_cons {names : List Text} {name : Text} {entries : List (Value × Value)}
    (h : name ∈ names) (v : Value) (hrest : OnlyKeys names entries) :
    OnlyKeys names ((.text name, v) :: entries) :=
  List.forall_mem_cons.mpr ⟨⟨name, h, rfl⟩, hrest⟩

/-! ## Shapes -/

namespace Shape

variable {α : Type}

/-- A shape accepts the values that stand for something, and what it makes of them shows what. -/
structure Reads (s : Shape) (view : Value → α) (R : Value → α → Prop) : Prop where
  sound : ∀ {path v w}, s.decode path v = .ok w → R v (view w)
  complete : ∀ {v a}, R v a → ∀ path, ∃ w, s.decode path v = .ok w ∧ view w = a

/-- A list of texts as it is seen. -/
def itemsOf (view : Value → α) (w : Value) : List α := (w.asList?.getD []).map view

/-- The text that a value is. -/
def textOf (w : Value) : Text := w.asText?.getD []

theorem reads_text : (primitive .text).Reads textOf IsText where
  sound := by
    intro path v w h
    cases v with
    | text t =>
      obtain rfl : Value.text t = w := Except.ok.inj h
      exact .text t
    | _ => cases h
  complete := by
    rintro v a ⟨⟩ path
    exact ⟨.text a, rfl, rfl⟩

/-- Items are decoded one by one. -/
theorem forall₂_of_decodeEach {β γ : Type} {f : Nat → β → Decoded γ} {i : Nat} {bs : List β}
    {cs : List γ} (hok : decodeEach f i bs = .ok cs) :
    List.Forall₂ (fun b c => ∃ j, f j b = .ok c) bs cs := by
  induction bs generalizing i cs with
  | nil =>
    obtain rfl : [] = cs := Except.ok.inj hok
    exact List.Forall₂.nil
  | cons b bs ih =>
    rw [decodeEach, bind_eq_ok_iff] at hok
    obtain ⟨c, hc, hok⟩ := hok
    rw [bind_eq_ok_iff] at hok
    obtain ⟨rest, hrest, hok⟩ := hok
    obtain rfl : c :: rest = cs := Except.ok.inj hok
    exact List.Forall₂.cons ⟨i, hc⟩ (ih hrest)

theorem decodeEach_sound {f : Nat → Value → Decoded Value} {view : Value → α} {R : Value → α → Prop}
    (h : ∀ i v w, f i v = .ok w → R v (view w)) {i : Nat} {vs ws : List Value}
    (hok : decodeEach f i vs = .ok ws) : List.Forall₂ R vs (ws.map view) := by
  rw [List.forall₂_map_right_iff]
  exact (forall₂_of_decodeEach hok).imp fun v w ⟨j, hj⟩ => h j v w hj

theorem decodeEach_complete {f : Nat → Value → Decoded Value} {view : Value → α}
    {R : Value → α → Prop} {vs : List Value} {as : List α} (hall : List.Forall₂ R vs as)
    (h : ∀ i v a, R v a → ∃ w, f i v = .ok w ∧ view w = a) (i : Nat) :
    ∃ ws, decodeEach f i vs = .ok ws ∧ ws.map view = as := by
  induction hall generalizing i with
  | nil => exact ⟨[], rfl, rfl⟩
  | cons hva _ ih =>
    obtain ⟨w, hw, rfl⟩ := h i _ _ hva
    obtain ⟨ws, hws, rfl⟩ := ih (i + 1)
    refine ⟨w :: ws, ?_, rfl⟩
    rw [decodeEach, hw]
    show (decodeEach f (i + 1) _ >>= fun bs => .ok (w :: bs)) = _
    rw [hws]
    rfl

theorem reads_listOf {item : Shape} {view : Value → α} {R : Value → α → Prop}
    (h : item.Reads view R) : (listOf item).Reads (itemsOf view) (IsList R) where
  sound := by
    intro path v w hok
    cases v with
    | list items =>
      rw [decode, bind_eq_ok_iff] at hok
      obtain ⟨ws, hws, hok⟩ := hok
      obtain rfl : Value.list ws = w := Except.ok.inj hok
      exact .list (decodeEach_sound (fun _ _ _ hw => h.sound hw) hws)
    | _ => cases hok
  complete := by
    rintro _ as ⟨hall⟩ path
    obtain ⟨ws, hws, hview⟩ := decodeEach_complete hall
      (fun i _ _ hva => h.complete hva (path ++ [Text.ofNat i])) 0
    refine ⟨.list ws, ?_, hview⟩
    rw [decode, hws]
    rfl

/-- What a list shape accepts is a list. -/
theorem decode_listOf_list {item : Shape} {path : List Text} {v w : Value}
    (h : (listOf item).decode path v = .ok w) : ∃ ws, w = .list ws := by
  cases v with
  | list items =>
    rw [decode, bind_eq_ok_iff] at h
    obtain ⟨ws, -, h⟩ := h
    exact ⟨ws, (Except.ok.inj h).symm⟩
  | _ => cases h

/-- A choice between a shape and null, given a value that is not null, is the shape. -/
theorem decode_orNull {s : Shape} (hs : s.isNull = false) {path : List Text} {v : Value}
    (hv : v ≠ .null) : (oneOf [s, null]).decode path v = s.decode path v := by
  have hfirst : ∀ fault, decodeFirst [s, null] path v fault = s.decode path v := by
    intro fault
    rw [decodeFirst, if_neg (by simp [hs])]
    cases s.decode path v with
    | ok w => rfl
    | error e => exact ite_self _
  cases v with
  | null => exact absurd rfl hv
  | _ => exact hfirst _

theorem decode_orNull_null (s : Shape) (path : List Text) :
    (oneOf [s, null]).decode path .null = .ok .null := by
  rw [decode, if_pos]
  simp [null, isNull]

end Shape

/-! ## Fields -/

namespace FieldShape

variable {α : Type}

/-- Decodes what a mapping holds for a field. -/
def decode (f : FieldShape) (path : List Text) (entries : List (Value × Value)) : Decoded Value :=
  match Value.atText entries f.name with
  | some v => f.shape.decode (path ++ [f.name]) v
  | none => match f.default with
    | some v => .ok v
    | none => mismatch (path ++ [f.name]) .missingField

theorem decode_of_some {f : FieldShape} {entries : List (Value × Value)} {v : Value}
    (h : Value.atText entries f.name = some v) (path : List Text) :
    f.decode path entries = f.shape.decode (path ++ [f.name]) v := by
  simp only [decode, h]

theorem decode_of_default {f : FieldShape} {entries : List (Value × Value)} {v : Value}
    (h : Value.atText entries f.name = none) (hdefault : f.default = some v) (path : List Text) :
    f.decode path entries = .ok v := by
  simp only [decode, h, hdefault]

theorem decode_of_missing {f : FieldShape} {entries : List (Value × Value)}
    (h : Value.atText entries f.name = none) (hdefault : f.default = none) (path : List Text) :
    f.decode path entries = mismatch (path ++ [f.name]) .missingField := by
  simp only [decode, h, hdefault]

/-- A field accepts the mappings whose entry for it stands for something. -/
structure Reads (f : FieldShape) (view : Value → α) (R : Option Value → α → Prop) : Prop where
  sound : ∀ {path entries w}, f.decode path entries = .ok w →
    R (Value.atText entries f.name) (view w)
  complete : ∀ {entries a}, R (Value.atText entries f.name) a → ∀ path,
    ∃ w, f.decode path entries = .ok w ∧ view w = a

theorem reads_required {s : Shape} {view : Value → α} {R : Value → α → Prop} (h : s.Reads view R)
    (name : Text) : Reads ⟨name, s, none⟩ view (Required R) where
  sound := by
    intro path entries w hok
    show Required R (Value.atText entries name) (view w)
    cases hv : Value.atText entries name with
    | none =>
      rw [decode_of_missing hv rfl] at hok
      cases hok
    | some v =>
      rw [decode_of_some hv] at hok
      exact .given (h.sound hok)
  complete := by
    intro entries a hR path
    replace hR : Required R (Value.atText entries name) a := hR
    cases hv : Value.atText entries name with
    | none =>
      rw [hv] at hR
      cases hR
    | some v =>
      rw [hv] at hR
      obtain ⟨hva⟩ := hR
      rw [decode_of_some hv]
      exact h.complete hva _

theorem reads_defaulted {s : Shape} {view : Value → α} {R : Value → α → Prop} (h : s.Reads view R)
    (name : Text) (default : Value) :
    Reads ⟨name, s, some default⟩ view (Defaulted R (view default)) where
  sound := by
    intro path entries w hok
    show Defaulted R (view default) (Value.atText entries name) (view w)
    cases hv : Value.atText entries name with
    | none =>
      rw [decode_of_default hv rfl] at hok
      obtain rfl : default = w := Except.ok.inj hok
      exact .absent
    | some v =>
      rw [decode_of_some hv] at hok
      exact .given (h.sound hok)
  complete := by
    intro entries a hR path
    replace hR : Defaulted R (view default) (Value.atText entries name) a := hR
    cases hv : Value.atText entries name with
    | none =>
      rw [hv] at hR
      cases hR
      exact ⟨default, decode_of_default hv rfl path, rfl⟩
    | some v =>
      rw [hv] at hR
      rw [decode_of_some hv]
      cases hR with
      | given hva => exact h.complete hva _

/-- A field that may be null shows null as nothing, and shows what its shape accepts. -/
theorem reads_nullable {s : Shape} {view : Value → α} {R : Value → α → Prop} (h : s.Reads view R)
    (hs : s.isNull = false) (hnull : ∀ a, ¬ R .null a) {fieldView : Value → Option α}
    (hnone : fieldView .null = none)
    (hsome : ∀ {path v w}, s.decode path v = .ok w → fieldView w = some (view w)) (name : Text) :
    Reads ⟨name, .oneOf [s, .null], some .null⟩ fieldView (Nullable R) where
  sound := by
    intro path entries w hok
    show Nullable R (Value.atText entries name) (fieldView w)
    cases hv : Value.atText entries name with
    | none =>
      rw [decode_of_default hv rfl] at hok
      obtain rfl : Value.null = w := Except.ok.inj hok
      rw [hnone]
      exact .absent
    | some v =>
      rw [decode_of_some hv] at hok
      by_cases hvn : v = .null
      · subst hvn
        rw [Shape.decode_orNull_null] at hok
        obtain rfl : Value.null = w := Except.ok.inj hok
        rw [hnone]
        exact .null
      · rw [Shape.decode_orNull hs hvn] at hok
        rw [hsome hok]
        exact .given (h.sound hok)
  complete := by
    intro entries a hR path
    replace hR : Nullable R (Value.atText entries name) a := hR
    cases hv : Value.atText entries name with
    | none =>
      rw [hv] at hR
      cases hR
      exact ⟨.null, decode_of_default hv rfl path, hnone⟩
    | some v =>
      rw [hv] at hR
      rw [decode_of_some hv]
      cases hR with
      | null => exact ⟨.null, Shape.decode_orNull_null s _, hnone⟩
      | given hva =>
        have hvn : v ≠ .null := by
          rintro rfl
          exact hnull _ hva
        obtain ⟨w, hw, rfl⟩ := h.complete hva (path ++ [name])
        exact ⟨w, (Shape.decode_orNull hs hvn).trans hw, hsome hw⟩

end FieldShape

/-! ## Records -/

/-- Fields are decoded one by one. -/
theorem decodeFields_cons (f : FieldShape) (fields : List FieldShape) (path : List Text)
    (entries : List (Value × Value)) :
    decodeFields (f :: fields) path entries = (do
      let value ← f.decode path entries
      let rest ← decodeFields fields path entries
      return (f.name, value) :: rest) := by
  obtain ⟨name, shape, default⟩ := f
  rw [decodeFields.eq_def]
  cases hv : Value.atText entries name with
  | some v => simp only [hv, FieldShape.decode]
  | none =>
    cases default with
    | some v => simp only [hv, FieldShape.decode]
    | none => simp only [hv, FieldShape.decode]

theorem decodeFields_cons_eq_ok_iff {f : FieldShape} {fields : List FieldShape} {path : List Text}
    {entries : List (Value × Value)} {result : List (Text × Value)} :
    decodeFields (f :: fields) path entries = .ok result ↔
      ∃ value rest, f.decode path entries = .ok value ∧
        decodeFields fields path entries = .ok rest ∧ result = (f.name, value) :: rest := by
  rw [decodeFields_cons, bind_eq_ok_iff]
  constructor
  · rintro ⟨value, hvalue, h⟩
    rw [bind_eq_ok_iff] at h
    obtain ⟨rest, hrest, h⟩ := h
    exact ⟨value, rest, hvalue, hrest, (Except.ok.inj h).symm⟩
  · rintro ⟨value, rest, hvalue, hrest, rfl⟩
    exact ⟨value, hvalue, bind_eq_ok_iff.mpr ⟨rest, hrest, rfl⟩⟩

theorem decodeFields_nil_eq_ok_iff {path : List Text} {entries : List (Value × Value)}
    {result : List (Text × Value)} : decodeFields [] path entries = .ok result ↔ result = [] := by
  rw [decodeFields]
  constructor
  · intro h
    exact (Except.ok.inj h).symm
  · rintro rfl
    rfl

/-- A record is read from a mapping that has only keys of its fields. -/
theorem Shape.decode_record_eq_ok_iff {number : Nat} {name : Text} {fields : List FieldShape}
    {path : List Text} {v w : Value} :
    (record number name fields).decode path v = .ok w ↔
      ∃ entries result, v = .map entries ∧ OnlyKeys (fields.map FieldShape.name) entries ∧
        decodeFields fields path entries = .ok result ∧ w = .record name result := by
  constructor
  · intro h
    cases v with
    | map entries =>
      rw [decode] at h
      split at h
      · next hunknown =>
        rw [bind_eq_ok_iff] at h
        obtain ⟨result, hresult, h⟩ := h
        exact ⟨entries, result, rfl, unknownKeys_eq_nil_iff.mp (List.isEmpty_iff.mp hunknown),
          hresult, (Except.ok.inj h).symm⟩
      · cases h
    | _ => cases h
  · rintro ⟨entries, result, rfl, honly, hresult, rfl⟩
    rw [decode]
    rw [if_pos (List.isEmpty_iff.mpr (unknownKeys_eq_nil_iff.mpr honly)), hresult]
    rfl

/-- Where no key is unknown, a record is decoded field by field. -/
theorem Shape.decode_record_of_onlyKeys {number : Nat} {name : Text} {fields : List FieldShape}
    {entries : List (Value × Value)} (h : OnlyKeys (fields.map FieldShape.name) entries)
    (path : List Text) :
    (record number name fields).decode path (.map entries) =
      (decodeFields fields path entries >>= fun results => .ok (.record name results)) := by
  rw [decode, if_pos (List.isEmpty_iff.mpr (unknownKeys_eq_nil_iff.mpr h))]
  rfl

/-! ## Faults with words -/

/-- An outcome whose fault, if there is one, can be put into words. -/
def Worded {α : Type} (x : Decoded α) : Prop :=
  ∀ fault, x = .error fault → fault.mismatch ≠ .unwritableKeys

namespace Worded

variable {α β : Type}

theorem ok (a : α) : Worded (.ok a : Decoded α) := by
  intro fault h
  cases h

theorem mismatch {path : List Text} {m : Mismatch} (hm : m ≠ .unwritableKeys) :
    Worded (mismatch path m : Decoded α) := by
  intro fault h
  rw [← Except.error.inj h]
  exact hm

/-- A key that can be written makes a step. -/
theorem valueStep {path : List Text} {key : Value} (hkey : key.isWritable = true) :
    Worded (valueStep path key) := by
  rw [Phrasebook.valueStep, if_pos hkey]
  exact ok key.display

theorem bind {x : Decoded α} {f : α → Decoded β} (hx : Worded x) (hf : ∀ a, Worded (f a)) :
    Worded (x >>= f) := by
  cases x with
  | ok a => exact hf a
  | error fault =>
    intro other h
    rw [← Except.error.inj h]
    exact hx fault rfl

/-- The items of a list are decoded with words if each of them is. -/
theorem decodeEach {f : Nat → α → Decoded β} {as : List α} (h : ∀ a ∈ as, ∀ i, Worded (f i a))
    (i : Nat) : Worded (decodeEach f i as) := by
  induction as generalizing i with
  | nil => exact Worded.ok []
  | cons a as ih =>
    have hrest := ih (fun b hb => h b (List.mem_cons_of_mem a hb)) (i + 1)
    exact Worded.bind (h a (List.mem_cons_self ..) i) fun b => Worded.bind hrest fun bs => Worded.ok _

/-- Unknown keys that can be written are named. -/
theorem ofUnknown {fields : List FieldShape} {entries : List (Value × Value)}
    (h : ∀ entry ∈ entries, entry.1.isWritable = true) :
    Mismatch.ofUnknown (unknownKeys fields entries) ≠ .unwritableKeys := by
  have hall : (unknownKeys fields entries).all Value.isWritable = true := by
    rw [List.all_eq_true]
    intro key hkey
    obtain ⟨entry, hentry, rfl⟩ := List.mem_map.mp hkey
    exact h entry (List.mem_filter.mp hentry).1
  rw [Mismatch.ofUnknown, if_pos hall]
  intro heq
  cases heq

end Worded

namespace Shape

mutual

/-- The keys of the mappings that a shape looks into can be written. -/
def KeysWritable : Shape → Value → Prop
  | .listOf item, v =>
    match v with
    | .list items => ∀ w ∈ items, item.KeysWritable w
    | _ => True
  | .tupleOf item, v =>
    match v with
    | .list items | .tuple items => ∀ w ∈ items, item.KeysWritable w
    | _ => True
  | .mapOf key value, v =>
    match v with
    | .map entries => ∀ entry ∈ entries,
        entry.1.isWritable = true ∧ key.KeysWritable entry.1 ∧ value.KeysWritable entry.2
    | _ => True
  | .oneOf shapes, v => KeysWritableAll shapes v
  | .record _ _ fields, v =>
    match v with
    | .map entries => (∀ entry ∈ entries, entry.1.isWritable = true) ∧
        KeysWritableFields fields entries
    | _ => True
  | _, _ => True

/-- The same for the alternatives of a choice. -/
def KeysWritableAll : List Shape → Value → Prop
  | [], _ => True
  | s :: ss, v => s.KeysWritable v ∧ KeysWritableAll ss v

/-- The same for what a mapping holds for fields. -/
def KeysWritableFields : List FieldShape → List (Value × Value) → Prop
  | [], _ => True
  | ⟨name, shape, _⟩ :: fields, entries =>
    (∀ v, Value.atText entries name = some v → shape.KeysWritable v) ∧
      KeysWritableFields fields entries

end

mutual

/-- Decoding fails with words if the keys can be written. -/
theorem worded_decode : ∀ (s : Shape) (path : List Text) (v : Value), s.KeysWritable v →
    Worded (s.decode path v)
  | .any, path, v, _ => .ok v
  | .unchecked, path, v, _ => .ok v
  | .primitive p, path, v, _ => by
    rw [decode]
    split
    · exact .ok v
    · exact .mismatch (by simp)
  | .bare b, path, v, _ => by
    rw [decode]
    split
    · exact .ok v
    · exact .mismatch (by simp)
  | .listOf item, path, v, h => by
    cases v with
    | list items =>
      rw [KeysWritable] at h
      rw [decode]
      have hitems := Worded.decodeEach
        (fun w hw i => worded_decode item (path ++ [Text.ofNat i]) w (h w hw)) 0
      exact hitems.bind fun ws => .ok _
    | _ => exact .mismatch (by simp)
  | .tupleOf item, path, v, h => by
    cases v with
    | list items =>
      rw [KeysWritable] at h
      rw [decode]
      have hitems := Worded.decodeEach
        (fun w hw i => worded_decode item (path ++ [Text.ofNat i]) w (h w hw)) 0
      exact hitems.bind fun ws => .ok _
    | tuple items =>
      rw [KeysWritable] at h
      rw [decode]
      have hitems := Worded.decodeEach
        (fun w hw i => worded_decode item (path ++ [Text.ofNat i]) w (h w hw)) 0
      exact hitems.bind fun ws => .ok _
    | _ => exact .mismatch (by simp)
  | .mapOf key value, path, v, h => by
    cases v with
    | map entries =>
      rw [KeysWritable] at h
      rw [decode]
      refine Worded.bind (Worded.decodeEach (fun entry hentry i => ?_) 0) fun ws => .ok _
      obtain ⟨hwritable, hkey, hvalue⟩ := h entry hentry
      exact (worded_decode key _ _ hkey).bind fun k => (Worded.valueStep hwritable).bind fun step =>
        (worded_decode value _ _ hvalue).bind fun w => .ok _
    | _ => exact .mismatch (by simp)
  | .oneOf shapes, path, v, h => by
    rw [KeysWritable] at h
    have hfirst := worded_decodeFirst shapes path v ⟨path, .noAlternative⟩ h (by simp)
    cases v with
    | null =>
      rw [decode]
      split
      · exact .ok Value.null
      · exact hfirst
    | _ => exact hfirst
  | .record number name fields, path, v, h => by
    cases v with
    | map entries =>
      rw [KeysWritable] at h
      rw [decode]
      split
      · exact (worded_decodeFields fields path entries h.2).bind fun fs => .ok _
      · exact .mismatch (Worded.ofUnknown h.1)
    | _ => exact .mismatch (by simp)
  | .model m, path, v, _ => by
    cases v with
    | map entries =>
      rw [decode]
      cases m.read entries with
      | ok w => exact .ok w
      | error faults => exact .mismatch (by simp)
    | _ => exact .mismatch (by simp)

/-- A choice fails with words if its alternatives do, and if the fault in waiting has words. -/
theorem worded_decodeFirst : ∀ (shapes : List Shape) (path : List Text) (v : Value)
    (fault : DecodeFault), KeysWritableAll shapes v → fault.mismatch ≠ .unwritableKeys →
    Worded (decodeFirst shapes path v fault)
  | [], path, v, fault, _, hfault => by
    rw [decodeFirst]
    exact .mismatch hfault
  | s :: ss, path, v, fault, h, hfault => by
    rw [KeysWritableAll] at h
    rw [decodeFirst]
    split
    · exact worded_decodeFirst ss path v fault h.2 hfault
    · have hs := worded_decode s path v h.1
      cases hv : s.decode path v with
      | ok w => exact .ok w
      | error e =>
        show Worded (if e.mismatch = .unwritableKeys then .error e else decodeFirst ss path v e)
        rw [if_neg (hs e hv)]
        exact worded_decodeFirst ss path v e h.2 (hs e hv)

/-- Fields fail with words if each of them does. -/
theorem worded_decodeFields : ∀ (fields : List FieldShape) (path : List Text)
    (entries : List (Value × Value)), KeysWritableFields fields entries →
    Worded (decodeFields fields path entries)
  | [], path, entries, _ => by
    rw [decodeFields]
    exact .ok []
  | ⟨name, shape, default⟩ :: fields, path, entries, h => by
    rw [KeysWritableFields] at h
    have hfield : Worded (FieldShape.decode ⟨name, shape, default⟩ path entries) := by
      cases hv : Value.atText entries name with
      | some v =>
        rw [FieldShape.decode_of_some hv]
        exact worded_decode shape _ v (h.1 v hv)
      | none =>
        cases default with
        | some v =>
          rw [FieldShape.decode_of_default hv rfl]
          exact .ok v
        | none =>
          rw [FieldShape.decode_of_missing hv rfl]
          exact .mismatch (by simp)
    rw [decodeFields_cons]
    exact hfield.bind fun value =>
      (worded_decodeFields fields path entries h.2).bind fun rest => .ok _

end

end Shape

end Phrasebook
