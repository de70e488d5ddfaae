/-
# Phrasebook.Proofs.PhraseFile.Forms -- a single batch in either form

A batch can stand in a file by itself, or as the only one in a list of batches.  The two forms are
read by different types: the keys of a file may be null and those of a batch may not, and phrases
that are left out are nothing in the one and an empty list in the other.  For a package and phrases
that are not null this makes no difference.  Both forms hold the same batch, or both are refused for
the same fault, whose path begins with the place of the batch in the second form.
-/
import Phrasebook.Proofs.PhraseFile
import Phrasebook.Proofs.Shape.Path

namespace Phrasebook

namespace PhraseFile

open Value (atText)

/-! ## The two forms -/

/-- The entries for a package and for its phrases, if there are any. -/
def batchEntries (package : Value) : Option Value → List (Value × Value)
  | none => [(.text "package", package)]
  | some phrases => [(.text "package", package), (.text "phrases", phrases)]

/-- A file with the entries of one batch. -/
def alone (package : Value) (phrases : Option Value) : Value := .map (batchEntries package phrases)

/-- A file with a list of one batch. -/
def listed (package : Value) (phrases : Option Value) : Value :=
  .map [(.text "batches", .list [.map (batchEntries package phrases)])]

section

variable (package : Value) (phrases : Option Value)

theorem onlyKeys_batchEntries {names : List Text} (hpackage : Text.ofString "package" ∈ names)
    (hphrases : Text.ofString "phrases" ∈ names) : OnlyKeys names (batchEntries package phrases) := by
  cases phrases with
  | none => exact onlyKeys_cons hpackage _ (onlyKeys_nil _)
  | some v => exact onlyKeys_cons hpackage _ (onlyKeys_cons hphrases _ (onlyKeys_nil _))

theorem atText_package : atText (batchEntries package phrases) "package" = some package := by
  cases phrases with
  | none => rfl
  | some v => rfl

theorem atText_phrases : atText (batchEntries package phrases) "phrases" = phrases := by
  cases phrases with
  | none => rfl
  | some v => rfl

theorem atText_batches : atText (batchEntries package phrases) "batches" = none := by
  cases phrases with
  | none => rfl
  | some v => rfl

end

/-! ## Their fields -/

/-- The outcome for the package of a batch. -/
def packageOutcome (package : Value) : Decoded Value :=
  (Shape.primitive .text).decode ["package"] package

/-- The outcome for the phrases of a batch, with a value for the case that there are none. -/
def phrasesOutcome (default : Value) : Option Value → Decoded Value
  | none => .ok default
  | some phrases => (Shape.listOf phraseShape).decode ["phrases"] phrases

/-- A field that may be null, given a value that is not null, is decoded like one that may not. -/
theorem decode_nullable {name : Text} {s : Shape} {default : Option Value} {v : Value}
    {entries : List (Value × Value)} (hs : s.isNull = false) (hv : v ≠ .null)
    (h : atText entries name = some v) (path : List Text) :
    FieldShape.decode ⟨name, .oneOf [s, .null], default⟩ path entries =
      s.decode (path ++ [name]) v :=
  (FieldShape.decode_of_some h path).trans (Shape.decode_orNull hs hv)

theorem decode_phrases {s : Shape} {default : Value} {phrases : Option Value}
    {entries : List (Value × Value)} (h : atText entries "phrases" = phrases)
    (hs : ∀ v, phrases = some v →
      s.decode ["phrases"] v = (Shape.listOf phraseShape).decode ["phrases"] v) :
    FieldShape.decode ⟨"phrases", s, some default⟩ [] entries = phrasesOutcome default phrases := by
  subst h
  cases hv : atText entries "phrases" with
  | none => exact FieldShape.decode_of_default hv rfl []
  | some v => exact (FieldShape.decode_of_some hv []).trans (hs v hv)

theorem decode_alone {package : Value} {phrases : Option Value} (hpackage : package ≠ .null)
    (hphrases : phrases ≠ some .null) :
    shape.decode [] (alone package phrases) = (do
      let a ← packageOutcome package
      let b ← phrasesOutcome .null phrases
      .ok (.record "PhraseFile" [("package", a), ("phrases", b), ("batches", .null)])) := by
  have ha : FieldShape.decode ⟨"package", .optional (.primitive .text), some .null⟩ []
      (batchEntries package phrases) = packageOutcome package :=
    decode_nullable rfl hpackage (atText_package package phrases) []
  have hb : FieldShape.decode ⟨"phrases", .oneOf [.listOf phraseShape, .null], some .null⟩ []
      (batchEntries package phrases) = phrasesOutcome .null phrases := by
    apply decode_phrases (atText_phrases package phrases)
    rintro v rfl
    exact Shape.decode_orNull rfl fun hnull => hphrases (congrArg some hnull)
  have hc : FieldShape.decode ⟨"batches", .oneOf [.listOf batchShape, .null], some .null⟩ []
      (batchEntries package phrases) = .ok .null :=
    FieldShape.decode_of_default (atText_batches package phrases) rfl []
  rw [shape_eq, alone, Shape.decode_record_of_onlyKeys
    (onlyKeys_batchEntries package phrases (by decide) (by decide))]
  simp only [decodeFields_cons, ha, hb, hc]
  rw [decodeFields]
  cases packageOutcome package with
  | error fault => rfl
  | ok a =>
    cases phrasesOutcome .null phrases with
    | error fault => rfl
    | ok b => rfl

theorem decode_batch (package : Value) (phrases : Option Value) :
    batchShape.decode [] (.map (batchEntries package phrases)) = (do
      let a ← packageOutcome package
      let b ← phrasesOutcome (.list []) phrases
      .ok (.record "BatchEntry" [("package", a), ("phrases", b)])) := by
  have ha : FieldShape.decode ⟨"package", .primitive .text, none⟩ []
      (batchEntries package phrases) = packageOutcome package :=
    FieldShape.decode_of_some (atText_package package phrases) []
  have hb : FieldShape.decode ⟨"phrases", .listOf phraseShape, some (.list [])⟩ []
      (batchEntries package phrases) = phrasesOutcome (.list []) phrases :=
    decode_phrases (atText_phrases package phrases) fun v _ => rfl
  rw [batchShape, Shape.decode_record_of_onlyKeys
    (onlyKeys_batchEntries package phrases (by decide) (by decide))]
  simp only [decodeFields_cons, ha, hb]
  rw [decodeFields]
  cases packageOutcome package with
  | error fault => rfl
  | ok a =>
    cases phrasesOutcome (.list []) phrases with
    | error fault => rfl
    | ok b => rfl

/-- Where the only batch of a list stands. -/
def firstBatch : List Text := ["batches", "0"]

theorem decode_listed (package : Value) (phrases : Option Value) :
    shape.decode [] (listed package phrases) = (do
      let w ← Decoded.behind firstBatch
        (batchShape.decode [] (.map (batchEntries package phrases)))
      .ok (.record "PhraseFile"
        [("package", .null), ("phrases", .null), ("batches", .list [w])])) := by
  let m : Value := .map (batchEntries package phrases)
  have hc : FieldShape.decode ⟨"batches", .oneOf [.listOf batchShape, .null], some .null⟩ []
      [(.text "batches", .list [m])] =
      (batchShape.decode firstBatch m >>= fun w => .ok (.list [w])) := by
    rw [decode_nullable rfl Value.noConfusion rfl, Shape.decode]
    show (decodeEach _ 0 [m] >>= _) = _
    rw [decodeEach]
    show ((batchShape.decode firstBatch m >>= _) >>= _) = _
    cases batchShape.decode firstBatch m with
    | error fault => rfl
    | ok w => rfl
  have hm : batchShape.decode firstBatch m = Decoded.behind firstBatch (batchShape.decode [] m) :=
    Shape.unmoved batchShape firstBatch [] m
  rw [shape_eq, listed, Shape.decode_record_of_onlyKeys
    (onlyKeys_cons (by decide) _ (onlyKeys_nil _))]
  simp only [decodeFields_cons]
  rw [hc, hm, decodeFields]
  -- the other two fields are left out and null by default
  cases batchShape.decode [] m with
  | error fault => rfl
  | ok w => rfl

/-! ## What the forms hold -/

/-- Phrases are the same to a file and to a batch, except that none are nothing to the one and an
empty list to the other. -/
theorem phrasesOutcome_cases (phrases : Option Value) :
    (∃ fault, ∀ default, phrasesOutcome default phrases = .error fault) ∨
      ∃ a b, phrasesOutcome .null phrases = .ok a ∧ phrasesOutcome (.list []) phrases = .ok b ∧
        (optionalItems phrase a).getD [] = Shape.itemsOf phrase b := by
  cases phrases with
  | none => exact .inr ⟨.null, .list [], rfl, rfl, rfl⟩
  | some v =>
    cases hv : (Shape.listOf phraseShape).decode ["phrases"] v with
    | error fault => exact .inl ⟨fault, fun _ => hv⟩
    | ok w =>
      refine .inr ⟨w, w, hv, hv, ?_⟩
      rw [optionalItems_of_decode phrase hv, Option.getD_some]

theorem worded_packageOutcome (package : Value) : Worded (packageOutcome package) :=
  Shape.worded_decode _ _ _ trivial

theorem worded_phrasesOutcome {phrases : Option Value}
    (h : ∀ v, phrases = some v → (Shape.listOf phraseShape).KeysWritable v) (default : Value) :
    Worded (phrasesOutcome default phrases) := by
  cases phrases with
  | none => exact Worded.ok default
  | some v => exact Shape.worded_decode _ _ _ (h v rfl)

theorem read_of_decode_ok {entries : List (Value × Value)} {file : Value}
    (h : shape.decode [] (.map entries) = .ok file) : read (.map entries) = batchesOf file := by
  rw [read, h]

theorem read_of_decode_error {entries : List (Value × Value)} {fault : DecodeFault}
    (h : shape.decode [] (.map entries) = .error fault) :
    read (.map entries) = .error (.mismatch fault) := by
  rw [read, h]

/-- A single batch is read alike in both forms: as the same batch, or else it is refused for the
same fault, which stands behind the place of the batch in the second form.  The refusals are
reported, if the keys of the phrases can be written. -/
theorem read_forms {package : Value} {phrases : Option Value} (hpackage : package ≠ .null)
    (hphrases : phrases ≠ some .null) :
    (∃ b, read (alone package phrases) = .ok [b] ∧ read (listed package phrases) = .ok [b]) ∨
      ∃ fault, read (alone package phrases) = .error (.mismatch fault) ∧
        read (listed package phrases) = .error (.mismatch (fault.behind firstBatch)) ∧
        ((∀ v, phrases = some v → (Shape.listOf phraseShape).KeysWritable v) →
          Reported (.mismatch fault) ∧ Reported (.mismatch (fault.behind firstBatch))) := by
  have halone := decode_alone hpackage hphrases
  have hlisted := decode_listed package phrases
  rw [decode_batch] at hlisted
  cases ha : packageOutcome package with
  | error fault =>
    rw [ha] at halone hlisted
    refine .inr ⟨fault, read_of_decode_error halone, read_of_decode_error hlisted, ?_⟩
    intro _
    -- the mismatch is that of the fault in either place
    have hwords := worded_packageOutcome package fault ha
    exact ⟨reported_mismatch hwords, reported_mismatch hwords⟩
  | ok a =>
    rw [ha] at halone hlisted
    rcases phrasesOutcome_cases phrases with ⟨fault, hb⟩ | ⟨b, b', hb, hb', hsame⟩
    · rw [hb] at halone hlisted
      refine .inr ⟨fault, read_of_decode_error halone, read_of_decode_error hlisted, ?_⟩
      intro hkeys
      have hwords := worded_phrasesOutcome hkeys .null fault (hb .null)
      exact ⟨reported_mismatch hwords, reported_mismatch hwords⟩
    · rw [hb] at halone
      rw [hb'] at hlisted
      refine .inl ⟨⟨Shape.textOf a, Shape.itemsOf phrase b'⟩, ?_, ?_⟩
      · rw [alone, read_of_decode_ok halone, batchesOf_record, asText?_of_decode ha, ← hsame]
        rfl
      · rw [listed, read_of_decode_ok hlisted, batchesOf_record]
        rfl

/-- A list of one phrase with a number for a key, which no phrase has. -/
def numberedPhrase (n : Int) : Value := .list [.map [(.text "name", .text "a"), (.int n, .null)]]

/-- The phrase is refused in both forms, where it stands in them. -/
theorem read_forms_numbered :
    Value.text "app" ≠ .null ∧ some (numberedPhrase 7) ≠ some .null ∧
      (∀ v, some (numberedPhrase 7) = some v → (Shape.listOf phraseShape).KeysWritable v) ∧
      read (alone (.text "app") (some (numberedPhrase 7))) =
        .error (.mismatch ⟨["phrases", "0"], .unknownKeys ["7"]⟩) ∧
      read (listed (.text "app") (some (numberedPhrase 7))) =
        .error (.mismatch ⟨["batches", "0", "phrases", "0"], .unknownKeys ["7"]⟩) ∧
      Reported (.mismatch ⟨["phrases", "0"], .unknownKeys ["7"]⟩) ∧
      Reported (.mismatch ⟨["batches", "0", "phrases", "0"], .unknownKeys ["7"]⟩) := by
  have hpackage : Value.text "app" ≠ .null := Value.noConfusion
  have hphrases : some (numberedPhrase 7) ≠ some .null := by
    intro h
    cases h
  have hkeys : ∀ v, some (numberedPhrase 7) = some v → (Shape.listOf phraseShape).KeysWritable v := by
    rintro v ⟨⟩
    exact Shape.keysWritable_of_isWritable (by decide +kernel)
  have halone : read (alone (.text "app") (some (numberedPhrase 7))) =
      .error (.mismatch ⟨["phrases", "0"], .unknownKeys ["7"]⟩) := by decide +kernel
  rcases read_forms hpackage hphrases with ⟨b, hb, -⟩ | ⟨fault, hfault, hlisted, huser⟩
  · rw [halone] at hb
    cases hb
  · rw [halone] at hfault
    obtain rfl := ContentFlaw.mismatch.inj (Except.error.inj hfault)
    exact ⟨hpackage, hphrases, hkeys, halone, hlisted, huser hkeys⟩

/-- A number of too many digits as a key of a phrase is refused in neither form with a message. -/
theorem read_forms_longKey :
    Value.text "app" ≠ .null ∧ some (numberedPhrase longNumber) ≠ some .null ∧
      (∃ flaw, read (alone (.text "app") (some (numberedPhrase longNumber))) = .error flaw ∧
        ∀ path, Fault.ofContent (.phraseFile path) flaw = .crash .unwritable) ∧
      ∃ flaw, read (listed (.text "app") (some (numberedPhrase longNumber))) = .error flaw ∧
        ∀ path, Fault.ofContent (.phraseFile path) flaw = .crash .unwritable := by
  have halone : read (alone (.text "app") (some (numberedPhrase longNumber))) =
      .error (.mismatch ⟨["phrases", "0"], .unwritableKeys⟩) := by decide +kernel
  have hlisted : read (listed (.text "app") (some (numberedPhrase longNumber))) =
      .error (.mismatch ⟨["batches", "0", "phrases", "0"], .unwritableKeys⟩) := by decide +kernel
  refine ⟨Value.noConfusion, ?_, ⟨_, halone, fun path => rfl⟩, _, hlisted, fun path => rfl⟩
  intro h
  cases h

end PhraseFile

end Phrasebook
