/-
# Phrasebook.Proofs.Command.Listing -- a listing loses nothing

What a listing shows is said here without any order of computation: a batch with its package and its
phrases, a phrase with all that it has, and under its tokens the index of the first occurrence of
each.  The text of a listing denotes exactly this value, so that the batches are known by the text
alone.  It is printed wherever standard output takes it, and so everywhere if no text of the batches
holds a lone surrogate.
-/
import Mathlib.Data.List.Nodup
import Phrasebook.Proofs.Command.Outcome
import Phrasebook.Proofs.Emission.Positions
import Phrasebook.Proofs.Json.Encoded

namespace Phrasebook

/-! ## What is listed -/

/-- A phrase as a value. -/
def Phrase.listed (p : Phrase) : Json := .object [
  ("name", .text p.name),
  ("className", .text ("Phrase_" ++ p.name)),
  ("documentation", match p.documentation with
    | none => .null
    | some doc => .text doc),
  ("tokens", .list (p.tokens.map .text)),
  ("slots", .object (p.tokens.eraseDups.map fun t => (t, .int (p.tokens.idxOf t))))]

/-- A batch as a value. -/
def Batch.listed (b : Batch) : Json := .object [
  ("package", .text b.package),
  ("phrases", .list (b.phrases.map Phrase.listed))]

/-- Batches as a value. -/
def listed (batches : List Batch) : Json := .object [("batches", .list (batches.map Batch.listed))]

/-- The tokens of a phrase have a form in bytes, that is, they hold no lone surrogate. -/
def Phrase.Encoded (p : Phrase) : Prop := ∀ t ∈ p.tokens, t.encode?.isSome

instance (p : Phrase) : Decidable p.Encoded := inferInstanceAs (Decidable (∀ t ∈ p.tokens, _))

/-- Different tokens are the names of the slots as they are. -/
theorem Phrase.slotMembers_eq {p : Phrase} (h : p.Encoded) :
    p.slotMembers = p.tokens.eraseDups.map fun t => (t, .int (p.tokens.idxOf t)) := by
  calc p.slotMembers
      = p.slots.map fun slot => (slot.1, .int slot.2) := Phrase.slotMembers_of_encoded h
    _ = p.tokens.eraseDups.map fun t => (t, .int (p.tokens.idxOf t)) := by
        rw [p.slots_eq_map, List.map_map]
        rfl

theorem Phrase.toJson_eq_listed {p : Phrase} (h : p.Encoded) : p.toJson = p.listed := by
  unfold Phrase.toJson Phrase.listed
  rw [Phrase.slotMembers_eq h]
  cases p.documentation <;> rfl

/-- A listing is what is to be listed. -/
theorem listing_eq_listed {batches : List Batch} (h : ∀ b ∈ batches, ∀ p ∈ b.phrases, p.Encoded) :
    listing batches = listed batches := by
  have hbatch : ∀ b ∈ batches, b.toJson = b.listed := by
    intro b hb
    rw [Batch.toJson, List.map_congr_left fun p hp => Phrase.toJson_eq_listed (h b hb p hp)]
    rfl
  rw [listing, List.map_congr_left hbatch]
  rfl

/-! ## Texts with a form in bytes -/

/-- No text of a phrase holds a lone surrogate. -/
structure Phrase.Printable (p : Phrase) : Prop where
  name : p.name.encode?.isSome
  documentation : ∀ doc, p.documentation = some doc → doc.encode?.isSome
  tokens : p.Encoded

/-- No text of a batch holds a lone surrogate. -/
structure Batch.Printable (b : Batch) : Prop where
  package : b.package.encode?.isSome
  phrases : ∀ p ∈ b.phrases, p.Printable

/-- All texts in a list of values have a form in bytes if those of each value have. -/
theorem Json.Encoded.map {α : Type} {f : α → Json} {as : List α} (h : ∀ a ∈ as, (f a).Encoded) :
    Encoded (.list (as.map f)) := by
  refine .list fun v hv => ?_
  obtain ⟨a, ha, rfl⟩ := List.mem_map.mp hv
  exact h a ha

theorem Phrase.encoded_listed {p : Phrase} (h : p.Printable) : p.listed.Encoded := by
  have hclass : (("Phrase_" : Text) ++ p.name).encode?.isSome :=
    Text.encode?_isSome_append.mpr ⟨by decide, h.name⟩
  have hdocumentation : Json.Encoded (match p.documentation with
      | none => .null
      | some doc => .text doc) := by
    cases hdoc : p.documentation with
    | none => exact .null
    | some doc => exact .text (h.documentation doc hdoc)
  have htoken : ∀ t ∈ p.tokens.eraseDups, t.encode?.isSome :=
    fun t ht => h.tokens t (List.mem_eraseDups.mp ht)
  have hslots : Json.Encoded
      (.object (p.tokens.eraseDups.map fun t => (t, .int (p.tokens.idxOf t)))) := by
    refine .object ?_ fun m hm => ?_
    · rw [List.map_map]
      exact (List.map_id p.tokens.eraseDups).symm ▸ htoken
    · obtain ⟨t, -, rfl⟩ := List.mem_map.mp hm
      exact .int _
  have hnames : ∀ t ∈ (["name", "className", "documentation", "tokens", "slots"] : List Text),
      t.encode?.isSome := by decide
  refine .object hnames (List.forall_mem_cons.mpr ⟨.text h.name, List.forall_mem_cons.mpr
    ⟨.text hclass, List.forall_mem_cons.mpr ⟨hdocumentation, List.forall_mem_cons.mpr
      ⟨.map fun t ht => .text (h.tokens t ht), List.forall_mem_singleton.mpr hslots⟩⟩⟩⟩)

theorem Batch.encoded_listed {b : Batch} (h : b.Printable) : b.listed.Encoded :=
  .object (by decide : ∀ t ∈ (["package", "phrases"] : List Text), t.encode?.isSome)
    (List.forall_mem_cons.mpr ⟨.text h.package,
      List.forall_mem_singleton.mpr (.map fun p hp => p.encoded_listed (h.phrases p hp))⟩)

/-- The text of a listing has a form in bytes if no text of the batches holds a lone surrogate. -/
theorem encode?_listing {batches : List Batch} (h : ∀ b ∈ batches, b.Printable) :
    (listing batches).document.encode?.isSome := by
  rw [listing_eq_listed fun b hb p hp => ((h b hb).phrases p hp).tokens]
  have hnames : ∀ t ∈ (["batches"] : List Text), t.encode?.isSome := by decide
  refine Json.Encoded.document (.object hnames (List.forall_mem_singleton.mpr ?_))
  exact .map fun b hb => b.encoded_listed (h b hb)

/-! ## Names of members -/

/-- No object in a value has two members of one name. -/
inductive Json.NamesDiffer : Json → Prop
  | null : NamesDiffer .null
  | bool (b : Bool) : NamesDiffer (.bool b)
  | int (n : Int) : NamesDiffer (.int n)
  | text (t : Text) : NamesDiffer (.text t)
  | list {items : List Json} (h : ∀ v ∈ items, NamesDiffer v) : NamesDiffer (.list items)
  | object {members : List (Text × Json)} (names : (members.map Prod.fst).Nodup)
      (h : ∀ m ∈ members, NamesDiffer m.2) : NamesDiffer (.object members)

/-- Every token is the name of one slot. -/
theorem Phrase.nodup_tokens (p : Phrase) : p.tokens.eraseDups.Nodup := by
  have hnames : p.slots.map Prod.fst = p.tokens.eraseDups := by
    rw [p.slots_eq_map, List.map_map]
    exact List.map_id _
  rw [← hnames, List.Nodup, List.pairwise_map]
  exact (pairwise_firstPositions 0 p.tokens).imp And.left

/-- A list of values of which none has two members of one name has none. -/
theorem Json.NamesDiffer.map {α : Type} {f : α → Json} {as : List α}
    (h : ∀ a ∈ as, (f a).NamesDiffer) : NamesDiffer (.list (as.map f)) := by
  refine .list fun v hv => ?_
  obtain ⟨a, ha, rfl⟩ := List.mem_map.mp hv
  exact h a ha

theorem Phrase.namesDiffer_listed (p : Phrase) : p.listed.NamesDiffer := by
  have hnames : (["name", "className", "documentation", "tokens", "slots"] : List Text).Nodup := by
    decide
  have hdocumentation : Json.NamesDiffer (match p.documentation with
      | none => .null
      | some doc => .text doc) := by
    cases p.documentation with
    | none => exact .null
    | some doc => exact .text doc
  have hslots : Json.NamesDiffer
      (.object (p.tokens.eraseDups.map fun t => (t, .int (p.tokens.idxOf t)))) := by
    refine .object ?_ fun m hm => ?_
    · rw [List.map_map]
      exact (List.map_id p.tokens.eraseDups).symm ▸ p.nodup_tokens
    · obtain ⟨t, -, rfl⟩ := List.mem_map.mp hm
      exact .int _
  refine .object hnames (List.forall_mem_cons.mpr ⟨.text _, List.forall_mem_cons.mpr ⟨.text _,
    List.forall_mem_cons.mpr ⟨hdocumentation, List.forall_mem_cons.mpr ⟨.map fun t _ => .text t,
      List.forall_mem_singleton.mpr hslots⟩⟩⟩⟩)

/-- No object of what is listed has two members of one name. -/
theorem namesDiffer_listed (batches : List Batch) : (listed batches).NamesDiffer := by
  have hbatch : ∀ b : Batch, b.listed.NamesDiffer := fun b =>
    .object (by decide : (["package", "phrases"] : List Text).Nodup) (List.forall_mem_cons.mpr
      ⟨.text _, List.forall_mem_singleton.mpr (.map fun p _ => p.namesDiffer_listed)⟩)
  exact .object (by decide : (["batches"] : List Text).Nodup)
    (List.forall_mem_singleton.mpr (.map fun b _ => hbatch b))

/-! ## Batches are known by their listing -/

theorem Phrase.toJson_injective : Function.Injective Phrase.toJson := by
  rintro ⟨name, documentation, tokens⟩ ⟨name', documentation', tokens'⟩ h
  simp only [Phrase.toJson, Json.object.injEq, List.cons.injEq, Prod.mk.injEq, true_and,
    Json.text.injEq, Json.list.injEq] at h
  obtain ⟨rfl, -, hdocumentation, htokens, -⟩ := h
  obtain rfl := List.map_injective_iff.mpr (fun _ _ => Json.text.inj) htokens
  cases documentation <;> cases documentation' <;> cases hdocumentation <;> rfl

theorem Batch.toJson_injective : Function.Injective Batch.toJson := by
  rintro ⟨package, phrases⟩ ⟨package', phrases'⟩ h
  simp only [Batch.toJson, Json.object.injEq, List.cons.injEq, Prod.mk.injEq, true_and,
    and_true, Json.text.injEq, Json.list.injEq] at h
  obtain ⟨rfl, hphrases⟩ := h
  rw [List.map_injective_iff.mpr Phrase.toJson_injective hphrases]

/-- Different batches have different listings, whatever their tokens hold. -/
theorem listing_injective : Function.Injective listing := by
  intro batches batches' h
  simp only [listing, Json.object.injEq, List.cons.injEq, Prod.mk.injEq, true_and, and_true,
    Json.list.injEq] at h
  exact List.map_injective_iff.mpr Batch.toJson_injective h

namespace Workspace

/-- A run that lists a phrase file prints the listing of its batches, if standard output takes it. -/
theorem execute_list {version : Text} {file : Path} {w : World} {batches : List Batch}
    (h : (World.run (loadPhrases file) w).1 = .ok batches)
    (htaken : w.host.takes (listing batches).document = true) :
    (execute version (.list file) w).1 = .exit 0 (listing batches).document [] := by
  obtain ⟨w', hload⟩ := World.exists_run h
  have hperform : World.run (perform version (.list file)) w =
      (.ok (listing batches).document, w') := by
    unfold perform
    rw [World.run_bind_of_ok hload]
    rfl
  rw [(execute_outcome version (.list file) w).1, hperform]
  exact endPrinting_eq_exit_iff.mpr ⟨htaken, rfl, rfl, rfl⟩

/-- What holds of the text that batches are listed as. -/
structure Lossless (batches : List Batch) : Prop where
  /-- It is what a run prints that lists a file with these batches, if standard output takes it. -/
  printed : ∀ version file w, (World.run (loadPhrases file) w).1 = .ok batches →
    w.host.takes (listing batches).document = true →
      (execute version (.list file) w).1 = .exit 0 (listing batches).document []
  /-- Standard output takes it if no text of the batches holds a lone surrogate. -/
  taken : (∀ b ∈ batches, b.Printable) → ∀ host : Host, host.takes (listing batches).document = true
  /-- By the grammar it denotes the batches with all that they hold, and nothing else. -/
  decoded : ∀ v, Json.IsDocument (listing batches).document v ↔ v = listed batches
  /-- A reader for whom the members of an object have no order and different names loses nothing. -/
  names : (listed batches).NamesDiffer
  /-- No other batches are listed as the same text. -/
  distinct : ∀ others, (listing others).document = (listing batches).document → others = batches

/-- Batches whose tokens hold no lone surrogate are listed without a loss. -/
theorem lossless_listing {batches : List Batch}
    (h : ∀ b ∈ batches, ∀ p ∈ b.phrases, p.Encoded) : Lossless batches where
  printed _ _ _ hload htaken := execute_list hload htaken
  taken hprintable host := host.takes_encoded (encode?_listing hprintable)
  decoded v := by
    rw [Json.isDocument_document_iff, listing_eq_listed h]
  names := namesDiffer_listed batches
  distinct _ hsame := listing_injective (Json.document_injective hsame)

/-- Batches with a token that comes twice, with quotes, line breaks and a control character in the
documentation of a phrase, with a phrase that has neither documentation nor tokens, and with no
phrases at all. -/
def quotations : List Batch := [
  ⟨"a.b", [⟨"quoted", some "\"x\" \\\n\t\x01\u00e9", ["x", "y", "x"]⟩, ⟨"bare", none, []⟩]⟩,
  ⟨"c", []⟩]

/-- A phrase file with these batches. -/
def quotationFile : ByteArray := (Text.encode? ("batches:\n- package: a.b\n  phrases:\n" ++
  "  - name: quoted\n    doc: \"\\\"x\\\" \\\\\\n\\t\\x01\\xe9\"\n    tokens: [x, y, x]\n" ++
  "  - name: bare\n- package: c\n")).getD .empty

theorem printable_quotations : ∀ b ∈ quotations, b.Printable := by
  have hphrase : ∀ p : Phrase, p.name.encode?.isSome ∧
      (p.documentation.getD []).encode?.isSome ∧ p.Encoded → p.Printable := by
    rintro p ⟨hname, hdocumentation, htokens⟩
    refine ⟨hname, fun doc hdoc => ?_, htokens⟩
    rwa [hdoc] at hdocumentation
  have hbatch : ∀ b ∈ quotations, b.package.encode?.isSome ∧ ∀ p ∈ b.phrases,
      p.name.encode?.isSome ∧ (p.documentation.getD []).encode?.isSome ∧ p.Encoded := by decide
  exact fun b hb => ⟨(hbatch b hb).1, fun p hp => hphrase p ((hbatch b hb).2 p hp)⟩

/-- The listing of the file is read back. -/
theorem lossless_listing_quotations :
    (∀ b ∈ quotations, ∀ p ∈ b.phrases, p.Encoded) ∧ Lossless quotations ∧
    (execute "0.1.0" (.list (Path.ofText "p.yaml")) (holding quotationFile)).1 =
      .exit 0 (listing quotations).document [] ∧
    Json.IsDocument (listing quotations).document (.object [("batches", .list [
      .object [("package", .text "a.b"), ("phrases", .list [
        .object [("name", .text "quoted"), ("className", .text "Phrase_quoted"),
          ("documentation", .text "\"x\" \\\n\t\x01\u00e9"),
          ("tokens", .list [.text "x", .text "y", .text "x"]),
          ("slots", .object [("x", .int 0), ("y", .int 1)])],
        .object [("name", .text "bare"), ("className", .text "Phrase_bare"),
          ("documentation", .null), ("tokens", .list []), ("slots", .object [])]])],
      .object [("package", .text "c"), ("phrases", .list [])]])]) := by
  have hencoded : ∀ b ∈ quotations, ∀ p ∈ b.phrases, p.Encoded := by decide
  have hload : (World.run (loadPhrases (Path.ofText "p.yaml")) (holding quotationFile)).1 =
      .ok quotations := by decide +kernel
  have hlossless : Lossless quotations := lossless_listing hencoded
  have htaken := hlossless.taken printable_quotations (holding quotationFile).host
  exact ⟨hencoded, hlossless, hlossless.printed _ _ _ hload htaken, (hlossless.decoded _).mpr rfl⟩

end Workspace

end Phrasebook
