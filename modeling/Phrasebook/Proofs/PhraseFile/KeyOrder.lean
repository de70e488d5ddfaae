/-
# Phrasebook.Proofs.PhraseFile.KeyOrder -- the order of keys in input files

Phrase files and settings files are records of texts, truth values, lists and records, so the order
of keys is of no account in them, at no depth.  What is accepted is read alike in any order, and what
is refused is refused for the same fault, even if there are several.
-/
import Phrasebook.Proofs.PhraseFile
import Phrasebook.Proofs.Shape.Reordered

namespace Phrasebook

open Value (DistinctKeys Reordered)

/-! ## The shapes of the files -/

theorem Shape.Orderless.orNull {s : Shape} (h : s.Orderless) : (Shape.oneOf [s, .null]).Orderless :=
  .oneOf (List.forall_mem_cons.mpr ⟨h, List.forall_mem_singleton.mpr .null⟩)

namespace PhraseFile

theorem orderless_phraseShape : phraseShape.Orderless := by
  have htext : (Shape.primitive .text).Orderless := .primitive .text
  rw [phraseShape_eq]
  apply Shape.Orderless.record
  simp only [List.forall_mem_cons]
  exact ⟨htext, htext.orNull, htext.listOf.orNull, htext.orNull, fun _ h => absurd h List.not_mem_nil⟩

theorem orderless_batchShape : batchShape.Orderless := by
  rw [batchShape]
  apply Shape.Orderless.record
  simp only [List.forall_mem_cons]
  exact ⟨.primitive .text, orderless_phraseShape.listOf, fun _ h => absurd h List.not_mem_nil⟩

theorem orderless_shape : shape.Orderless := by
  have htext : (Shape.primitive .text).Orderless := .primitive .text
  rw [shape_eq]
  apply Shape.Orderless.record
  simp only [List.forall_mem_cons]
  exact ⟨htext.orNull, orderless_phraseShape.listOf.orNull, orderless_batchShape.listOf.orNull,
    fun _ h => absurd h List.not_mem_nil⟩

end PhraseFile

theorem Settings.orderless_shape : Settings.shape.Orderless := by
  have htext : (Shape.primitive .text).Orderless := .primitive .text
  rw [Settings.shape]
  apply Shape.Orderless.record
  simp only [List.forall_mem_cons]
  exact ⟨htext, htext.listOf, htext, .primitive .bool, fun _ h => absurd h List.not_mem_nil⟩

/-! ## The files -/

/-- Settings files that differ in the order of entries are read alike. -/
theorem Settings.ofValue_eq_of_reordered {v w : Value} (hv : v.DistinctKeys) (h : v.Reordered w) :
    Settings.ofValue v = Settings.ofValue w := by
  have hdecode := Shape.decode_reordered Settings.orderless_shape hv h []
  cases h with
  | same => rfl
  | map =>
    simp only [Settings.ofValue, Settings.ofEmpty, hdecode]
  | list => rfl
  | tuple => rfl

namespace PhraseFile

/-- Phrase files that differ in the order of entries are read alike. -/
theorem read_eq_of_reordered {v w : Value} (hv : v.DistinctKeys) (h : v.Reordered w) :
    read v = read w := by
  have hdecode := Shape.decode_reordered orderless_shape hv h []
  cases h with
  | same => rfl
  | map =>
    rw [read, read, hdecode]
  | list => rfl
  | tuple => rfl

/-- The order of keys in phrase files and in settings files is of no account: in any order they are
read as the same, or refused for the same fault.  The refusals are reported, if the keys can be
written. -/
theorem read_reordered {v w : Value} (hv : v.DistinctKeys) (h : v.Reordered w) :
    (read v = read w ∧
      (shape.KeysWritable v → ∀ flaw, read v = .error flaw → Reported flaw)) ∧
    Settings.ofValue v = Settings.ofValue w ∧
      Settings.shape.decode [] v = Settings.shape.decode [] w ∧
      (Settings.shape.KeysWritable v → Worded (Settings.shape.decode [] v)) := by
  refine ⟨⟨read_eq_of_reordered hv h, ?_⟩, Settings.ofValue_eq_of_reordered hv h, ?_,
    Shape.worded_decode Settings.shape [] v⟩
  · intro hkeys flaw hflaw
    exact reported_of_isWritable (isWritable_of_read_eq_error hkeys hflaw)
  · exact Shape.decode_reordered Settings.orderless_shape hv h []

/-- The entries of a phrase with a name that is no text and a key that no phrase has. -/
def strangeEntries : List (Value × Value) := [(.text "name", .int 7), (.text "tone", .null)]

/-- A file of one phrase, whose package comes first. -/
def packageFirst (entries : List (Value × Value)) : Value :=
  .map [(.text "package", .text "app"), (.text "phrases", .list [.map entries])]

/-- A file of one phrase, whose package comes last. -/
def packageLast (entries : List (Value × Value)) : Value :=
  .map [(.text "phrases", .list [.map entries]), (.text "package", .text "app")]

theorem distinctKeys_packageFirst {entries : List (Value × Value)}
    (h : (Value.map entries).DistinctKeys) : (packageFirst entries).DistinctKeys :=
  Value.distinctKeys_pair rfl (.plain rfl) (.list (List.forall_mem_singleton.mpr h))

theorem reordered_packageLast {entries others : List (Value × Value)} (h : entries.Perm others) :
    (packageFirst entries).Reordered (packageLast others) := by
  have hphrases : (Value.list [.map entries]).Reordered (.list [.map others]) := by
    refine .list rfl fun v w hmem => ?_
    obtain ⟨rfl, rfl⟩ := Prod.mk.inj (List.mem_singleton.mp hmem)
    exact Value.reordered_of_perm h
  refine .map (List.Perm.swap ..) rfl fun entry other hmem => ?_
  rcases List.mem_cons.mp hmem with heq | hmem
  · obtain ⟨rfl, rfl⟩ := Prod.mk.inj heq
    exact hphrases
  · obtain ⟨rfl, rfl⟩ := Prod.mk.inj (List.mem_singleton.mp hmem)
    exact .same _

/-- In both orders the unknown key is named, and not the wrong name. -/
theorem read_reordered_strange :
    (packageFirst strangeEntries).DistinctKeys ∧
      (packageFirst strangeEntries).Reordered (packageLast strangeEntries.reverse) ∧
      shape.KeysWritable (packageFirst strangeEntries) ∧
      Settings.shape.KeysWritable (packageFirst strangeEntries) ∧
      read (packageFirst strangeEntries) =
        .error (.mismatch ⟨["phrases", "0"], .unknownKeys ["tone"]⟩) ∧
      read (packageLast strangeEntries.reverse) =
        .error (.mismatch ⟨["phrases", "0"], .unknownKeys ["tone"]⟩) ∧
      Reported (.mismatch ⟨["phrases", "0"], .unknownKeys ["tone"]⟩) ∧
      Settings.ofValue (packageFirst strangeEntries) =
        Settings.ofValue (packageLast strangeEntries.reverse) ∧
      Settings.shape.decode [] (packageFirst strangeEntries) =
        Settings.shape.decode [] (packageLast strangeEntries.reverse) ∧
      Worded (Settings.shape.decode [] (packageFirst strangeEntries)) := by
  have hwritable : (packageFirst strangeEntries).isWritable = true := by decide +kernel
  have hdistinct : (packageFirst strangeEntries).DistinctKeys :=
    distinctKeys_packageFirst (Value.distinctKeys_pair rfl (.plain rfl) (.plain rfl))
  have hreordered := reordered_packageLast strangeEntries.reverse_perm.symm
  have hfirst : read (packageFirst strangeEntries) =
      .error (.mismatch ⟨["phrases", "0"], .unknownKeys ["tone"]⟩) := by decide +kernel
  obtain ⟨⟨hread, hreported⟩, hsettings, hdecode, hworded⟩ :=
    read_reordered hdistinct hreordered
  have hkeys : shape.KeysWritable (packageFirst strangeEntries) :=
    Shape.keysWritable_of_isWritable hwritable
  have hkeys' : Settings.shape.KeysWritable (packageFirst strangeEntries) :=
    Shape.keysWritable_of_isWritable hwritable
  exact ⟨hdistinct, hreordered, hkeys, hkeys', hfirst, hread.symm.trans hfirst,
    hreported hkeys _ hfirst, hsettings, hdecode, hworded hkeys'⟩

/-- The entries of a phrase with a number for a key. -/
def numberedEntries (n : Int) : List (Value × Value) := [(.text "name", .text "a"), (.int n, .null)]

/-- A number of too many digits as a key is refused without a message, in whatever order. -/
theorem read_reordered_longKey :
    (packageFirst (numberedEntries longNumber)).DistinctKeys ∧
      (packageFirst (numberedEntries longNumber)).Reordered
        (packageLast (numberedEntries longNumber).reverse) ∧
      (∃ flaw, read (packageFirst (numberedEntries longNumber)) = .error flaw ∧
        ∀ path, Fault.ofContent (.phraseFile path) flaw = .crash .unwritable) ∧
      ∃ flaw, read (packageLast (numberedEntries longNumber).reverse) = .error flaw ∧
        ∀ path, Fault.ofContent (.phraseFile path) flaw = .crash .unwritable := by
  have hfirst : read (packageFirst (numberedEntries longNumber)) =
      .error (.mismatch ⟨["phrases", "0"], .unwritableKeys⟩) := by decide +kernel
  have hlast : read (packageLast (numberedEntries longNumber).reverse) =
      .error (.mismatch ⟨["phrases", "0"], .unwritableKeys⟩) := by decide +kernel
  have hdistinct : (packageFirst (numberedEntries longNumber)).DistinctKeys :=
    distinctKeys_packageFirst (Value.distinctKeys_pair rfl (.plain rfl) (.plain rfl))
  exact ⟨hdistinct, reordered_packageLast (List.reverse_perm _).symm,
    ⟨_, hfirst, fun path => rfl⟩, _, hlast, fun path => rfl⟩

end PhraseFile

end Phrasebook
