/-
# Phrasebook.Proofs.PhraseFile -- the grammar of phrase files

`IsPhraseFile` says, form by form, which values are phrase files and which batches they hold.  A file
is read exactly if it is one, and the batches are those that it holds.  What is refused is refused
with a message, unless a mapping has a key that cannot be written in it.
-/
import Phrasebook.Fault
import Phrasebook.PhraseFile
import Phrasebook.Proofs.Shape.Accepts

namespace Phrasebook

namespace PhraseFile

open Value (atText)

/-! ## The grammar -/

/-- The tokens of a phrase: those listed, else those of its text, else none. -/
def tokensFrom : Option (List Text) → Option Text → List Text
  | some tokens, _ => tokens
  | none, some text => tokensOfText text
  | none, none => []

/-- A mapping that describes a phrase. -/
inductive IsPhrase : Value → Phrase → Prop
  | mapping {entries : List (Value × Value)} {name : Text} {doc : Option Text}
      {tokens : Option (List Text)} {text : Option Text} :
      OnlyKeys ["name", "doc", "tokens", "text"] entries →
      Required IsText (atText entries "name") name →
      Nullable IsText (atText entries "doc") doc →
      Nullable (IsList IsText) (atText entries "tokens") tokens →
      Nullable IsText (atText entries "text") text →
      IsPhrase (.map entries) ⟨name, doc, tokensFrom tokens text⟩

/-- A mapping that describes a batch; its phrases may be left out but not be null. -/
inductive IsBatch : Value → Batch → Prop
  | mapping {entries : List (Value × Value)} {package : Text} {phrases : List Phrase} :
      OnlyKeys ["package", "phrases"] entries →
      Required IsText (atText entries "package") package →
      Defaulted (IsList IsPhrase) [] (atText entries "phrases") phrases →
      IsBatch (.map entries) ⟨package, phrases⟩

/-- Nothing, or null. -/
def AbsentOrNull (v : Option Value) : Prop := v = none ∨ v = some .null

/-- A mapping in one of the two forms of a phrase file. -/
inductive IsPhraseFile : Value → List Batch → Prop
  | several {entries : List (Value × Value)} {batches : List Batch} :
      OnlyKeys ["package", "phrases", "batches"] entries →
      Required (IsList IsBatch) (atText entries "batches") batches →
      AbsentOrNull (atText entries "package") →
      AbsentOrNull (atText entries "phrases") →
      IsPhraseFile (.map entries) batches
  | single {entries : List (Value × Value)} {package : Text} {phrases : Option (List Phrase)} :
      OnlyKeys ["package", "phrases", "batches"] entries →
      AbsentOrNull (atText entries "batches") →
      Required IsText (atText entries "package") package →
      Nullable (IsList IsPhrase) (atText entries "phrases") phrases →
      IsPhraseFile (.map entries) [⟨package, phrases.getD []⟩]

/-! ## Fields of phrase files -/

theorem not_isText_null (t : Text) : ¬ IsText .null t := by
  rintro ⟨⟩

theorem not_isList_null {α : Type} {R : Value → α → Prop} (as : List α) : ¬ IsList R .null as := by
  rintro ⟨⟩

/-- What the shape of texts accepts is a text. -/
theorem asText?_of_decode {path : List Text} {v w : Value}
    (h : (Shape.primitive .text).decode path v = .ok w) : w.asText? = some (Shape.textOf w) := by
  obtain ⟨t, rfl⟩ : ∃ t, w = .text t := by
    cases v with
    | text t => exact ⟨t, (Except.ok.inj h).symm⟩
    | _ => cases h
  rfl

/-- What the items of a list show, if there is a list. -/
def optionalItems {α : Type} (view : Value → α) (w : Value) : Option (List α) :=
  w.asList?.map fun items => items.map view

theorem optionalItems_of_decode {α : Type} {item : Shape} (view : Value → α) {path : List Text}
    {v w : Value} (h : (Shape.listOf item).decode path v = .ok w) :
    optionalItems view w = some (Shape.itemsOf view w) := by
  obtain ⟨ws, rfl⟩ := Shape.decode_listOf_list h
  rfl

theorem reads_optionalText (name : Text) :
    FieldShape.Reads ⟨name, .optional (.primitive .text), some .null⟩ Value.asText?
      (Nullable IsText) :=
  FieldShape.reads_nullable Shape.reads_text rfl not_isText_null rfl asText?_of_decode name

theorem reads_optionalList {α : Type} {item : Shape} {view : Value → α} {R : Value → α → Prop}
    (h : item.Reads view R) (name : Text) :
    FieldShape.Reads ⟨name, .oneOf [.listOf item, .null], some .null⟩ (optionalItems view)
      (Nullable (IsList R)) :=
  FieldShape.reads_nullable (Shape.reads_listOf h) rfl not_isList_null rfl
    (optionalItems_of_decode view) name

/-! ## Phrases -/

theorem phraseShape_eq : phraseShape = .record 0 "PhraseEntry" [
    ⟨"name", .primitive .text, none⟩,
    ⟨"doc", .optional (.primitive .text), some .null⟩,
    ⟨"tokens", .oneOf [.listOf (.primitive .text), .null], some .null⟩,
    ⟨"text", .optional (.primitive .text), some .null⟩] := rfl

/-- The phrase that a decoded record shows. -/
theorem phrase_record (a b c d : Value) :
    phrase (.record "PhraseEntry" [("name", a), ("doc", b), ("tokens", c), ("text", d)]) =
      ⟨Shape.textOf a, b.asText?, tokensFrom (optionalItems Shape.textOf c) d.asText?⟩ := by
  have htokens : tokens (.record "PhraseEntry"
      [("name", a), ("doc", b), ("tokens", c), ("text", d)]) =
      tokensFrom (optionalItems Shape.textOf c) d.asText? := by
    have hlist : Value.field (.record "PhraseEntry"
        [("name", a), ("doc", b), ("tokens", c), ("text", d)]) "tokens" = c := rfl
    have htext : Value.field (.record "PhraseEntry"
        [("name", a), ("doc", b), ("tokens", c), ("text", d)]) "text" = d := rfl
    unfold tokens
    rw [hlist, htext, optionalItems, Value.texts]
    cases c.asList? with
    | some items => rfl
    | none =>
      cases d.asText? with
      | some t => rfl
      | none => rfl
  show Phrase.mk _ _ _ = _
  rw [htokens]
  rfl

theorem reads_phrase : phraseShape.Reads phrase IsPhrase where
  sound := by
    intro path v w h
    rw [phraseShape_eq, Shape.decode_record_eq_ok_iff] at h
    obtain ⟨entries, result, rfl, honly, hfields, rfl⟩ := h
    simp only [decodeFields_cons_eq_ok_iff, decodeFields_nil_eq_ok_iff] at hfields
    obtain ⟨a, _, ha, ⟨b, _, hb, ⟨c, _, hc, ⟨d, _, hd, rfl, rfl⟩, rfl⟩, rfl⟩, rfl⟩ := hfields
    rw [phrase_record]
    exact .mapping honly ((FieldShape.reads_required Shape.reads_text _).sound ha)
      ((reads_optionalText _).sound hb) ((reads_optionalList Shape.reads_text _).sound hc)
      ((reads_optionalText _).sound hd)
  complete := by
    rintro _ _ ⟨honly, hname, hdoc, htokens, htext⟩ path
    obtain ⟨a, ha, rfl⟩ :=
      (FieldShape.reads_required Shape.reads_text "name").complete hname path
    obtain ⟨b, hb, rfl⟩ := (reads_optionalText "doc").complete hdoc path
    obtain ⟨c, hc, rfl⟩ := (reads_optionalList Shape.reads_text "tokens").complete htokens path
    obtain ⟨d, hd, rfl⟩ := (reads_optionalText "text").complete htext path
    refine ⟨_, ?_, phrase_record a b c d⟩
    rw [phraseShape_eq, Shape.decode_record_eq_ok_iff]
    refine ⟨_, _, rfl, honly, ?_, rfl⟩
    simp only [decodeFields_cons_eq_ok_iff, decodeFields_nil_eq_ok_iff]
    exact ⟨a, _, ha, ⟨b, _, hb, ⟨c, _, hc, ⟨d, _, hd, rfl, rfl⟩, rfl⟩, rfl⟩, rfl⟩

/-! ## Batches -/

theorem reads_batch : batchShape.Reads batch IsBatch where
  sound := by
    intro path v w h
    rw [batchShape, Shape.decode_record_eq_ok_iff] at h
    obtain ⟨entries, result, rfl, honly, hfields, rfl⟩ := h
    simp only [decodeFields_cons_eq_ok_iff, decodeFields_nil_eq_ok_iff] at hfields
    obtain ⟨a, _, ha, ⟨b, _, hb, rfl, rfl⟩, rfl⟩ := hfields
    exact .mapping honly ((FieldShape.reads_required Shape.reads_text _).sound ha)
      ((FieldShape.reads_defaulted (Shape.reads_listOf reads_phrase) _ (.list [])).sound hb)
  complete := by
    rintro _ _ ⟨honly, hpackage, hphrases⟩ path
    obtain ⟨a, ha, rfl⟩ :=
      (FieldShape.reads_required Shape.reads_text "package").complete hpackage path
    obtain ⟨b, hb, rfl⟩ := (FieldShape.reads_defaulted (Shape.reads_listOf reads_phrase) "phrases"
      (.list [])).complete hphrases path
    refine ⟨.record "BatchEntry" [("package", a), ("phrases", b)], ?_, rfl⟩
    rw [batchShape, Shape.decode_record_eq_ok_iff]
    refine ⟨_, _, rfl, honly, ?_, rfl⟩
    simp only [decodeFields_cons_eq_ok_iff, decodeFields_nil_eq_ok_iff]
    exact ⟨a, _, ha, ⟨b, _, hb, rfl, rfl⟩, rfl⟩

/-! ## Whole files -/

theorem shape_eq : shape = .record 0 "PhraseFile" [
    ⟨"package", .optional (.primitive .text), some .null⟩,
    ⟨"phrases", .oneOf [.listOf phraseShape, .null], some .null⟩,
    ⟨"batches", .oneOf [.listOf batchShape, .null], some .null⟩] := rfl

/-- The batches of a file from its three entries, of which each may be missing. -/
def assemble : Option (List Batch) → Option Text → Option (List Phrase) →
    Except ContentFlaw (List Batch)
  | some batches, none, none => .ok batches
  | some _, _, _ => .error .bothForms
  | none, none, _ => .error .missingPackage
  | none, some package, phrases => .ok [⟨package, phrases.getD []⟩]

theorem batchesOf_record (a b c : Value) :
    batchesOf (.record "PhraseFile" [("package", a), ("phrases", b), ("batches", c)]) =
      assemble (optionalItems batch c) a.asText? (optionalItems phrase b) := by
  have hbatches : Value.field (.record "PhraseFile"
      [("package", a), ("phrases", b), ("batches", c)]) "batches" = c := rfl
  have hpackage : Value.field (.record "PhraseFile"
      [("package", a), ("phrases", b), ("batches", c)]) "package" = a := rfl
  have hphrases : Value.field (.record "PhraseFile"
      [("package", a), ("phrases", b), ("batches", c)]) "phrases" = b := rfl
  unfold batchesOf
  rw [hbatches, hpackage, hphrases, optionalItems, optionalItems]
  cases hb : b.asList? <;> cases c.asList? <;> cases a.asText? <;>
    simp [assemble, phrases, hb]

/-- What a file holds for its three keys. -/
structure Holds (entries : List (Value × Value)) (batches : Option (List Batch))
    (package : Option Text) (phrases : Option (List Phrase)) : Prop where
  keys : OnlyKeys ["package", "phrases", "batches"] entries
  batches : Nullable (IsList IsBatch) (atText entries "batches") batches
  package : Nullable IsText (atText entries "package") package
  phrases : Nullable (IsList IsPhrase) (atText entries "phrases") phrases

/-- A file is decoded exactly if its keys hold what they should. -/
theorem decode_shape_iff {entries : List (Value × Value)} {result : Except ContentFlaw (List Batch)} :
    (∃ file, shape.decode [] (.map entries) = .ok file ∧ batchesOf file = result) ↔
      ∃ batches package phrases, Holds entries batches package phrases ∧
        assemble batches package phrases = result := by
  constructor
  · rintro ⟨file, hfile, rfl⟩
    rw [shape_eq, Shape.decode_record_eq_ok_iff] at hfile
    obtain ⟨_, fields, ⟨⟩, honly, hfields, rfl⟩ := hfile
    simp only [decodeFields_cons_eq_ok_iff, decodeFields_nil_eq_ok_iff] at hfields
    obtain ⟨a, _, ha, ⟨b, _, hb, ⟨c, _, hc, rfl, rfl⟩, rfl⟩, rfl⟩ := hfields
    refine ⟨_, _, _, ⟨honly, ?_, ?_, ?_⟩, (batchesOf_record a b c).symm⟩
    · exact (reads_optionalList reads_batch _).sound hc
    · exact (reads_optionalText _).sound ha
    · exact (reads_optionalList reads_phrase _).sound hb
  · rintro ⟨batches, package, phrases, ⟨honly, hbatches, hpackage, hphrases⟩, rfl⟩
    obtain ⟨a, ha, rfl⟩ := (reads_optionalText "package").complete hpackage []
    obtain ⟨b, hb, rfl⟩ := (reads_optionalList reads_phrase "phrases").complete hphrases []
    obtain ⟨c, hc, rfl⟩ := (reads_optionalList reads_batch "batches").complete hbatches []
    refine ⟨_, ?_, batchesOf_record a b c⟩
    rw [shape_eq, Shape.decode_record_eq_ok_iff]
    refine ⟨_, _, rfl, honly, ?_, rfl⟩
    simp only [decodeFields_cons_eq_ok_iff, decodeFields_nil_eq_ok_iff]
    exact ⟨a, _, ha, ⟨b, _, hb, ⟨c, _, hc, rfl, rfl⟩, rfl⟩, rfl⟩

theorem nullable_none_iff {α : Type} {R : Value → α → Prop} {v : Option Value} :
    Nullable R v none ↔ AbsentOrNull v := by
  constructor
  · intro h
    cases h with
    | absent => exact Or.inl rfl
    | null => exact Or.inr rfl
  · rintro (rfl | rfl)
    · exact .absent
    · exact .null

theorem nullable_some_iff {α : Type} {R : Value → α → Prop} {v : Option Value} {a : α} :
    Nullable R v (some a) ↔ Required R v a := by
  constructor
  · intro h
    cases h with
    | given h => exact .given h
  · rintro ⟨h⟩
    exact .given h

/-- What the keys hold makes a file in one of the two forms. -/
theorem isPhraseFile_iff_holds {entries : List (Value × Value)} {result : List Batch} :
    IsPhraseFile (.map entries) result ↔
      ∃ batches package phrases, Holds entries batches package phrases ∧
        assemble batches package phrases = .ok result := by
  constructor
  · intro h
    cases h with
    | several honly hbatches hpackage hphrases =>
      exact ⟨some result, none, none, ⟨honly, nullable_some_iff.mpr hbatches,
        nullable_none_iff.mpr hpackage, nullable_none_iff.mpr hphrases⟩, rfl⟩
    | @single _ package phrases honly hbatches hpackage hphrases =>
      exact ⟨none, some package, phrases, ⟨honly, nullable_none_iff.mpr hbatches,
        nullable_some_iff.mpr hpackage, hphrases⟩, rfl⟩
  · rintro ⟨batches, package, phrases, ⟨honly, hbatches, hpackage, hphrases⟩, h⟩
    -- Only two of the eight combinations of entries make batches.
    match batches, package, phrases, h with
    | some batches, none, none, h =>
      obtain rfl : batches = result := Except.ok.inj h
      exact .several honly (nullable_some_iff.mp hbatches) (nullable_none_iff.mp hpackage)
        (nullable_none_iff.mp hphrases)
    | none, some package, phrases, h =>
      obtain rfl := Except.ok.inj h
      exact .single honly (nullable_none_iff.mp hbatches) (nullable_some_iff.mp hpackage) hphrases

/-- A value is read exactly if it is a phrase file, and as the batches that it holds. -/
theorem read_eq_ok_iff {v : Value} {result : List Batch} :
    read v = .ok result ↔ IsPhraseFile v result := by
  cases v with
  | map entries =>
    rw [isPhraseFile_iff_holds, ← decode_shape_iff, read]
    cases hv : shape.decode [] (.map entries) with
    | ok file => simp
    | error fault => simp
  | _ =>
    constructor
    · intro h
      cases h
    · intro h
      cases h

/-- A value that is refused is refused with a message, if the keys of its mappings can be written. -/
theorem isWritable_of_read_eq_error {v : Value} (hkeys : shape.KeysWritable v) {flaw : ContentFlaw}
    (h : read v = .error flaw) : flaw.isWritable = true := by
  cases v with
  | map entries =>
    rw [read] at h
    have hworded := Shape.worded_decode shape [] (.map entries) hkeys
    cases hv : shape.decode [] (.map entries) with
    | ok file =>
      rw [hv] at h
      simp only at h
      unfold batchesOf at h
      split at h <;> cases h <;> rfl
    | error fault =>
      rw [hv] at h
      obtain rfl : ContentFlaw.mismatch fault = flaw := Except.error.inj h
      exact decide_eq_true (hworded fault hv)
  | _ =>
    obtain rfl := Except.error.inj h
    rfl

/-- Whether the user is told of a flaw, wherever the phrase file is. -/
def Reported (flaw : ContentFlaw) : Prop :=
  ∀ path, Fault.ofContent (.phraseFile path) flaw = .user (.phraseFile path (.content flaw))

theorem reported_of_isWritable {flaw : ContentFlaw} (h : flaw.isWritable = true) : Reported flaw :=
  fun _ => if_pos h

/-- A mismatch that has words is reported. -/
theorem reported_mismatch {fault : DecodeFault} (h : fault.mismatch ≠ .unwritableKeys) :
    Reported (.mismatch fault) :=
  reported_of_isWritable (decide_eq_true h)

/-- Phrase files are read as what they hold.  Everything else is refused with a message of its own,
if the keys of its mappings can be written. -/
theorem read_exact (v : Value) :
    (∀ result, read v = .ok result ↔ IsPhraseFile v result) ∧
      (shape.KeysWritable v → (¬ ∃ result, IsPhraseFile v result) →
        ∃ flaw, read v = .error flaw ∧
          ∀ path, Fault.ofContent (.phraseFile path) flaw =
            .user (.phraseFile path (.content flaw))) := by
  refine ⟨fun result => read_eq_ok_iff, ?_⟩
  intro hkeys hnone
  cases hv : read v with
  | ok result => exact absurd ⟨result, read_eq_ok_iff.mp hv⟩ hnone
  | error flaw =>
    refine ⟨flaw, rfl, ?_⟩
    intro path
    exact if_pos (isWritable_of_read_eq_error hkeys hv)

/-- A mapping with a number for a key, which no file has. -/
def withNumber (n : Int) : Value := .map [(.text "package", .text "app"), (.int n, .list [])]

/-- The least natural number with too many digits to be written. -/
def longNumber : Int := (Nat.pow 10 digitLimit : Nat)

theorem not_isPhraseFile_withNumber (n : Int) : ¬ ∃ result, IsPhraseFile (withNumber n) result := by
  have hnot : ¬ OnlyKeys ["package", "phrases", "batches"]
      [(.text "package", .text "app"), (.int n, .list [])] := by
    intro h
    obtain ⟨name, -, heq⟩ := h (.int n, .list []) (List.mem_cons_of_mem _ (List.mem_cons_self ..))
    cases heq
  rintro ⟨result, h⟩
  cases h with
  | several honly => exact hnot honly
  | single honly => exact hnot honly

theorem keysWritable_withNumber {n : Int} (hn : isWritable n = true) :
    shape.KeysWritable (withNumber n) := by
  have hwritable : (withNumber n).isWritable = true := by
    simp [withNumber, Value.isWritable, Value.entriesWritable, Value.allWritable, hn]
  exact Shape.keysWritable_of_isWritable hwritable

/-- A short number as a key is refused with a message. -/
theorem read_exact_shortKey :
    shape.KeysWritable (withNumber 7) ∧
      ∃ flaw, read (withNumber 7) = .error flaw ∧
        ∀ path, Fault.ofContent (.phraseFile path) flaw =
          .user (.phraseFile path (.content flaw)) := by
  have hkeys : shape.KeysWritable (withNumber 7) := keysWritable_withNumber (by decide +kernel)
  exact ⟨hkeys, (read_exact (withNumber 7)).2 hkeys (not_isPhraseFile_withNumber 7)⟩

/-- A number of too many digits as a key is refused without a message. -/
theorem read_longKey :
    (¬ ∃ result, IsPhraseFile (withNumber longNumber) result) ∧
      ∃ flaw, read (withNumber longNumber) = .error flaw ∧
        ∀ path, Fault.ofContent (.phraseFile path) flaw = .crash .unwritable := by
  have hread : read (withNumber longNumber) = .error (.mismatch ⟨[], .unwritableKeys⟩) := by
    decide +kernel
  exact ⟨not_isPhraseFile_withNumber longNumber, _, hread, fun path => rfl⟩

end PhraseFile

end Phrasebook
