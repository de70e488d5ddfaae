/-
# Phrasebook.Proofs.Shape.Yields -- what decoding makes of a value

`Shape.Yields` says by rules what a shape makes of a value that it accepts.  Scalars stay as they
are, items and entries keep their number and their order, and a choice takes its first alternative
but null that accepts.  A record holds its fields in the order of their declaration, those that are
absent with their defaults.

The keys of a mapping stay what they are.  That rests on what can be a key at all: no list and no
mapping, of which alone decoding makes something else.  So no two keys become the same either, and
the mapping that is built has all entries.
-/
import Phrasebook.Proofs.Shape.Accepts

namespace Phrasebook

/-! ## Keys -/

namespace Value

/-- Whether a value has items or entries. -/
def isCollection : Value → Bool
  | list _ | tuple _ | map _ => true
  | _ => false

/-- A value that can be a key: there is no list and no mapping in it. -/
inductive IsKey : Value → Prop
  | plain {v : Value} : v.isCollection = false → IsKey v
  | tuple {items : List Value} : (∀ v ∈ items, IsKey v) → IsKey (.tuple items)

/-- A value whose mappings have no keys but such that can be keys. -/
inductive WellKeyed : Value → Prop
  | plain {v : Value} : v.isCollection = false → WellKeyed v
  | list {items : List Value} : (∀ v ∈ items, WellKeyed v) → WellKeyed (.list items)
  | tuple {items : List Value} : (∀ v ∈ items, WellKeyed v) → WellKeyed (.tuple items)
  | map {entries : List (Value × Value)} : (∀ entry ∈ entries, IsKey entry.1) →
      (∀ entry ∈ entries, WellKeyed entry.2) → WellKeyed (.map entries)

theorem not_isKey_list {items : List Value} : ¬ IsKey (.list items) := by
  intro h
  cases h with
  | plain h => cases h

theorem not_isKey_map {entries : List (Value × Value)} : ¬ IsKey (.map entries) := by
  intro h
  cases h with
  | plain h => cases h

theorem isKey_of_mem {items : List Value} (h : IsKey (.tuple items)) : ∀ v ∈ items, IsKey v := by
  cases h with
  | plain h => cases h
  | tuple h => exact h

theorem wellKeyed_of_mem_list {items : List Value} (h : WellKeyed (.list items)) :
    ∀ v ∈ items, WellKeyed v := by
  cases h with
  | plain h => cases h
  | list h => exact h

theorem wellKeyed_of_mem_tuple {items : List Value} (h : WellKeyed (.tuple items)) :
    ∀ v ∈ items, WellKeyed v := by
  cases h with
  | plain h => cases h
  | tuple h => exact h

theorem wellKeyed_of_mem_map {entries : List (Value × Value)} (h : WellKeyed (.map entries)) :
    ∀ entry ∈ entries, IsKey entry.1 ∧ WellKeyed entry.2 := by
  cases h with
  | plain h => cases h
  | map hkeys hvalues => exact fun entry hentry => ⟨hkeys entry hentry, hvalues entry hentry⟩

end Value

/-! ## The rules -/

namespace Shape

open Value (atText)

/-- What a shape makes of a value. -/
inductive Yields : Shape → Value → Value → Prop
  | any (v : Value) : Yields .any v v
  | unchecked (v : Value) : Yields .unchecked v v
  | primitive {p : Primitive} {v : Value} : (primitive p).Accepts v → Yields (.primitive p) v v
  | bare {b : Bare} {v : Value} : (bare b).Accepts v → Yields (.bare b) v v
  | listOf {item : Shape} {items results : List Value} :
      items.length = results.length →
      (∀ v w, (v, w) ∈ items.zip results → Yields item v w) →
      Yields (.listOf item) (.list items) (.list results)
  | tupleOfList {item : Shape} {items results : List Value} :
      items.length = results.length →
      (∀ v w, (v, w) ∈ items.zip results → Yields item v w) →
      Yields (.tupleOf item) (.list items) (.tuple results)
  | tupleOfTuple {item : Shape} {items results : List Value} :
      items.length = results.length →
      (∀ v w, (v, w) ∈ items.zip results → Yields item v w) →
      Yields (.tupleOf item) (.tuple items) (.tuple results)
  | mapOf {key value : Shape} {entries results : List (Value × Value)} :
      results.map Prod.fst = entries.map Prod.fst →
      (∀ entry result, (entry, result) ∈ entries.zip results → Yields value entry.2 result.2) →
      Yields (.mapOf key value) (.map entries) (.map results)
  | null {shapes : List Shape} : Shape.null ∈ shapes → Yields (.oneOf shapes) .null .null
  | first {before after : List Shape} {s : Shape} {v w : Value} :
      ¬ (v = .null ∧ Shape.null ∈ before ++ s :: after) →
      (∀ t ∈ before, t.isNull = false → ¬ t.Accepts v) → s.isNull = false → Yields s v w →
      Yields (.oneOf (before ++ s :: after)) v w
  | record {number : Nat} {name : Text} {fields : List FieldShape}
      {entries : List (Value × Value)} {results : List (Text × Value)} :
      results.map Prod.fst = fields.map FieldShape.name →
      (∀ f r v, (f, r) ∈ fields.zip results → atText entries f.name = some v →
        Yields f.shape v r.2) →
      (∀ f r, (f, r) ∈ fields.zip results → atText entries f.name = none → f.default = some r.2) →
      Yields (.record number name fields) (.map entries) (.record name results)
  | model {m : Model} {entries : List (Value × Value)} {w : Value} :
      m.read entries = .ok w → Yields (.model m) (.map entries) w

/-! ## What is decoded -/

/-- The alternative that a choice takes, those before it having failed with words. -/
theorem decodeFirst_eq_ok {shapes : List Shape} {path : List Text} {v w : Value}
    {fault : DecodeFault} (h : decodeFirst shapes path v fault = .ok w) :
    ∃ before s after, shapes = before ++ s :: after ∧ s.isNull = false ∧ s.decode path v = .ok w ∧
      ∀ t ∈ before, t.isNull = false →
        ∃ e, t.decode path v = .error e ∧ e.mismatch ≠ .unwritableKeys := by
  induction shapes generalizing fault with
  | nil =>
    rw [decodeFirst] at h
    cases h
  | cons s ss ih =>
    rw [decodeFirst] at h
    split at h
    · next hnull =>
      obtain ⟨before, t, after, rfl, ht, hok, hbefore⟩ := ih h
      refine ⟨s :: before, t, after, rfl, ht, hok, List.forall_mem_cons.mpr ⟨fun hs => ?_, hbefore⟩⟩
      rw [hs] at hnull
      cases hnull
    · next hnull =>
      rw [Bool.not_eq_true] at hnull
      cases hs : s.decode path v with
      | ok u =>
        rw [hs] at h
        obtain rfl : u = w := Except.ok.inj h
        exact ⟨[], s, ss, rfl, hnull, hs, fun t ht => absurd ht List.not_mem_nil⟩
      | error e =>
        simp only [hs] at h
        split at h
        · cases h
        · next hwords =>
          obtain ⟨before, t, after, rfl, ht, hok, hbefore⟩ := ih h
          exact ⟨s :: before, t, after, rfl, ht, hok,
            List.forall_mem_cons.mpr ⟨fun _ => ⟨e, hs, hwords⟩, hbefore⟩⟩

/-- The fields of a record are decoded in order. -/
theorem forall₂_of_decodeFields {fields : List FieldShape} {path : List Text}
    {entries : List (Value × Value)} {results : List (Text × Value)}
    (h : decodeFields fields path entries = .ok results) :
    List.Forall₂ (fun f r => r.1 = f.name ∧ f.decode path entries = .ok r.2) fields results := by
  induction fields generalizing results with
  | nil =>
    obtain rfl := decodeFields_nil_eq_ok_iff.mp h
    exact List.Forall₂.nil
  | cons f fields ih =>
    obtain ⟨value, rest, hvalue, hrest, rfl⟩ := decodeFields_cons_eq_ok_iff.mp h
    exact List.Forall₂.cons ⟨rfl, hvalue⟩ (ih hrest)

/-- What results have in common with their sources, one by one, lists of them have too. -/
theorem map_eq_of_forall₂ {α β γ : Type} {R : α → β → Prop} {as : List α} {bs : List β} {f : α → γ}
    {g : β → γ} (h : List.Forall₂ R as bs) (heq : ∀ a ∈ as, ∀ b, R a b → g b = f a) :
    bs.map g = as.map f := by
  induction h with
  | nil => rfl
  | cons hab _ ih =>
    obtain ⟨ha, has⟩ := List.forall_mem_cons.mp heq
    rw [List.map_cons, List.map_cons, ha _ hab, ih has]

/-- A primitive type leaves what it accepts as it is. -/
theorem decode_primitive_eq_ok {p : Primitive} {path : List Text} {v w : Value}
    (h : (primitive p).decode path v = .ok w) : w = v := by
  rw [decode] at h
  split at h
  · exact (Except.ok.inj h).symm
  · cases h

theorem decode_bare_eq_ok {b : Bare} {path : List Text} {v w : Value}
    (h : (bare b).decode path v = .ok w) : w = v := by
  rw [decode] at h
  split at h
  · exact (Except.ok.inj h).symm
  · cases h

/-- An entry is decoded by its key and its value. -/
theorem exists_of_decodeEntry {key value : Shape} {path : List Text} {entry result : Value × Value}
    (h : decodeEntry key value path entry = .ok result) :
    (∃ path, key.decode path entry.1 = .ok result.1) ∧
      ∃ path, value.decode path entry.2 = .ok result.2 := by
  rw [decodeEntry, bind_eq_ok_iff] at h
  obtain ⟨k, hk, h⟩ := h
  rw [bind_eq_ok_iff] at h
  obtain ⟨step, -, h⟩ := h
  rw [bind_eq_ok_iff] at h
  obtain ⟨w, hw, h⟩ := h
  obtain rfl : (k, w) = result := Except.ok.inj h
  exact ⟨⟨_, hk⟩, _, hw⟩

/-- Decoding leaves what can be a key as it is. -/
theorem eq_of_decode_isKey (s : Shape) {path : List Text} {v w : Value} (hv : v.IsKey)
    (h : s.decode path v = .ok w) : w = v := by
  induction s using Shape.induct generalizing path v w with
  | any => exact (Except.ok.inj h).symm
  | unchecked => exact (Except.ok.inj h).symm
  | primitive p => exact decode_primitive_eq_ok h
  | bare b => exact decode_bare_eq_ok h
  | listOf item _ =>
    cases v with
    | list items => exact absurd hv Value.not_isKey_list
    | _ => cases h
  | tupleOf item ih =>
    cases v with
    | list items => exact absurd hv Value.not_isKey_list
    | tuple items =>
      rw [decode, bind_eq_ok_iff] at h
      obtain ⟨ws, hws, h⟩ := h
      obtain rfl : Value.tuple ws = w := Except.ok.inj h
      have hsame : ws.map id = items.map id := map_eq_of_forall₂ (forall₂_of_decodeEach hws)
        fun v hmem w ⟨j, hj⟩ => ih (Value.isKey_of_mem hv v hmem) hj
      rw [List.map_id, List.map_id] at hsame
      rw [hsame]
    | _ => cases h
  | mapOf key value _ _ =>
    cases v with
    | map entries => exact absurd hv Value.not_isKey_map
    | _ => cases h
  | oneOf shapes ih =>
    by_cases hnull : v = .null ∧ Shape.null ∈ shapes
    · obtain ⟨rfl, hmem⟩ := hnull
      rw [decode, if_pos (any_isNull_iff.mpr hmem)] at h
      exact (Except.ok.inj h).symm
    · rw [decode_oneOf_of_not_null hnull] at h
      obtain ⟨before, s, after, rfl, -, hs, -⟩ := decodeFirst_eq_ok h
      exact ih s (List.mem_append_right _ (List.mem_cons_self ..)) hv hs
  | record number name fields _ =>
    cases v with
    | map entries => exact absurd hv Value.not_isKey_map
    | _ => cases h
  | model m =>
    cases v with
    | map entries => exact absurd hv Value.not_isKey_map
    | _ => cases h

/-- What is made of the items of a list, one by one. -/
theorem yields_items {item : Shape} {f : Nat → Value → Decoded Value} {i : Nat}
    {items results : List Value} (hkeyed : ∀ v ∈ items, v.WellKeyed)
    (h : decodeEach f i items = .ok results)
    (hitem : ∀ j v w, v.WellKeyed → f j v = .ok w → item.Yields v w) :
    items.length = results.length ∧ ∀ v w, (v, w) ∈ items.zip results → item.Yields v w := by
  have hall := forall₂_of_decodeEach h
  refine ⟨hall.length_eq, fun v w hvw => ?_⟩
  obtain ⟨j, hj⟩ := (List.forall₂_iff_zip.mp hall).2 hvw
  exact hitem j v w (hkeyed v (List.of_mem_zip hvw).1) hj

/-- A value is decoded to what the shape makes of it. -/
theorem yields_of_decode (s : Shape) {path : List Text} {v w : Value} (hv : v.WellKeyed)
    (h : s.decode path v = .ok w) : s.Yields v w := by
  induction s using Shape.induct generalizing path v w with
  | any =>
    obtain rfl : v = w := Except.ok.inj h
    exact .any v
  | unchecked =>
    obtain rfl : v = w := Except.ok.inj h
    exact .unchecked v
  | primitive p =>
    obtain rfl := decode_primitive_eq_ok h
    exact .primitive ((tells_decode _ path _).sound _ h)
  | bare b =>
    obtain rfl := decode_bare_eq_ok h
    exact .bare ((tells_decode _ path _).sound _ h)
  | listOf item ih =>
    cases v with
    | list items =>
      rw [decode, bind_eq_ok_iff] at h
      obtain ⟨ws, hws, h⟩ := h
      obtain rfl : Value.list ws = w := Except.ok.inj h
      obtain ⟨hlength, hitems⟩ := yields_items (Value.wellKeyed_of_mem_list hv) hws
        fun j v w hkeyed hw => ih hkeyed hw
      exact .listOf hlength hitems
    | _ => cases h
  | tupleOf item ih =>
    cases v with
    | list items =>
      rw [decode, bind_eq_ok_iff] at h
      obtain ⟨ws, hws, h⟩ := h
      obtain rfl : Value.tuple ws = w := Except.ok.inj h
      obtain ⟨hlength, hitems⟩ := yields_items (Value.wellKeyed_of_mem_list hv) hws
        fun j v w hkeyed hw => ih hkeyed hw
      exact .tupleOfList hlength hitems
    | tuple items =>
      rw [decode, bind_eq_ok_iff] at h
      obtain ⟨ws, hws, h⟩ := h
      obtain rfl : Value.tuple ws = w := Except.ok.inj h
      obtain ⟨hlength, hitems⟩ := yields_items (Value.wellKeyed_of_mem_tuple hv) hws
        fun j v w hkeyed hw => ih hkeyed hw
      exact .tupleOfTuple hlength hitems
    | _ => cases h
  | mapOf key value _ ihvalue =>
    cases v with
    | map entries =>
      rw [decode_mapOf, bind_eq_ok_iff] at h
      obtain ⟨ws, hws, h⟩ := h
      obtain rfl : Value.map ws = w := Except.ok.inj h
      have hall := forall₂_of_decodeEach hws
      have hkeyed := Value.wellKeyed_of_mem_map hv
      refine .mapOf (map_eq_of_forall₂ hall fun entry hmem result ⟨_, hentry⟩ => ?_)
        fun entry result hmem => ?_
      · obtain ⟨_, hk⟩ := (exists_of_decodeEntry hentry).1
        exact eq_of_decode_isKey key (hkeyed entry hmem).1 hk
      · obtain ⟨_, hentry⟩ := (List.forall₂_iff_zip.mp hall).2 hmem
        obtain ⟨_, hu⟩ := (exists_of_decodeEntry hentry).2
        exact ihvalue (hkeyed entry (List.of_mem_zip hmem).1).2 hu
    | _ => cases h
  | oneOf shapes ih =>
    by_cases hnull : v = .null ∧ Shape.null ∈ shapes
    · obtain ⟨rfl, hmem⟩ := hnull
      rw [decode, if_pos (any_isNull_iff.mpr hmem)] at h
      obtain rfl : Value.null = w := Except.ok.inj h
      exact .null hmem
    · rw [decode_oneOf_of_not_null hnull] at h
      obtain ⟨before, s, after, rfl, hs, hw, hbefore⟩ := decodeFirst_eq_ok h
      refine .first hnull (fun t ht htnull => ?_) hs
        (ih s (List.mem_append_right _ (List.mem_cons_self ..)) hv hw)
      obtain ⟨e, he, hwords⟩ := hbefore t ht htnull
      exact (tells_decode t path v).complete e he hwords
  | record number name fields ih =>
    obtain ⟨entries, results, rfl, -, hfields, rfl⟩ := decode_record_eq_ok_iff.mp h
    have hall := forall₂_of_decodeFields hfields
    have hzip : ∀ f r, (f, r) ∈ fields.zip results → f.decode path entries = .ok r.2 :=
      fun f r hfr => ((List.forall₂_iff_zip.mp hall).2 hfr).2
    refine .record (map_eq_of_forall₂ hall fun f _ r h => h.1) (fun f r v hfr hgiven => ?_) fun f r hfr habsent => ?_
    · have hr := hzip f r hfr
      rw [FieldShape.decode_of_some hgiven] at hr
      obtain ⟨entry, hentry, rfl⟩ := Value.exists_mem_of_atText hgiven
      exact ih f (List.of_mem_zip hfr).1 (Value.wellKeyed_of_mem_map hv entry hentry).2 hr
    · have hr := hzip f r hfr
      cases hdefault : f.default with
      | none =>
        rw [FieldShape.decode_of_missing habsent hdefault] at hr
        cases hr
      | some d =>
        rw [FieldShape.decode_of_default habsent hdefault] at hr
        rw [Except.ok.inj hr]
  | model m =>
    cases v with
    | map entries =>
      rw [decode, mapError_eq_ok_iff] at h
      exact .model h
    | _ => cases h

/-! ## Soundness and completeness -/

/-- Decoding gives a value only for what is accepted, and then what the shape makes of it; it refuses
with words only what is not accepted.  If the keys can be written, every refusal has words, so that
what is accepted is decoded. -/
theorem decode_exact (s : Shape) (path : List Text) {v : Value} (hv : v.WellKeyed) :
    (∀ w, s.decode path v = .ok w → s.Accepts v ∧ s.Yields v w) ∧
      (∀ fault, s.decode path v = .error fault → fault.mismatch ≠ .unwritableKeys →
        ¬ s.Accepts v) ∧
      (s.KeysWritable v →
        (s.Accepts v ↔ ∃ w, s.decode path v = .ok w) ∧
          ∀ fault, s.decode path v = .error fault → fault.mismatch ≠ .unwritableKeys) := by
  have htells := tells_decode s path v
  refine ⟨fun w hw => ⟨htells.sound w hw, yields_of_decode s hv hw⟩, htells.complete, ?_⟩
  intro hkeys
  have hworded := worded_decode s path v hkeys
  refine ⟨⟨fun haccepts => ?_, fun ⟨w, hw⟩ => htells.sound w hw⟩, hworded⟩
  cases hx : s.decode path v with
  | ok w => exact ⟨w, rfl⟩
  | error fault => exact absurd haccepts (htells.complete fault hx (hworded fault hx))

/-- A mapping from texts to integers, some of which are left open. -/
def scores : Shape := .mapOf (.primitive .text) (.oneOf [.primitive .int, .null])

/-- Two scores, one of them open. -/
def twoScores : Value := .map [(.text "ada", .int 7), (.text "bob", .null)]

theorem wellKeyed_twoScores : twoScores.WellKeyed := by
  refine .map ?_ ?_
  · simp only [List.forall_mem_cons]
    exact ⟨.plain rfl, .plain rfl, fun _ h => absurd h List.not_mem_nil⟩
  · simp only [List.forall_mem_cons]
    exact ⟨.plain rfl, .plain rfl, fun _ h => absurd h List.not_mem_nil⟩

/-- The scores are accepted, and so there is a value that is made of them. -/
theorem decode_exact_scores :
    twoScores.WellKeyed ∧ scores.KeysWritable twoScores ∧
      ∃ w, scores.decode [] twoScores = .ok w ∧ scores.Yields twoScores w := by
  have hkeys : scores.KeysWritable twoScores := by
    show ∀ entry ∈ [((.text "ada" : Value), (.int 7 : Value)), (.text "bob", .null)], _
    simp only [List.forall_mem_cons]
    refine ⟨⟨rfl, trivial, trivial, trivial, trivial⟩, ⟨rfl, trivial, trivial, trivial, trivial⟩, ?_⟩
    exact fun _ h => absurd h List.not_mem_nil
  have haccepts : scores.Accepts twoScores := by
    refine .mapOf ?_ ?_
    · simp only [List.forall_mem_cons]
      exact ⟨.text _, .text _, fun _ h => absurd h List.not_mem_nil⟩
    · simp only [List.forall_mem_cons]
      refine ⟨.oneOf (List.mem_cons_self ..) (.int 7), .oneOf ?_ .null, ?_⟩
      · exact List.mem_cons_of_mem _ (List.mem_cons_self ..)
      · exact fun _ h => absurd h List.not_mem_nil
  obtain ⟨hsound, -, hcomplete⟩ := decode_exact scores [] wellKeyed_twoScores
  obtain ⟨w, hw⟩ := (hcomplete hkeys).1.mp haccepts
  exact ⟨wellKeyed_twoScores, hkeys, w, hw, (hsound w hw).2⟩

/-- A mapping whose only key is an integer. -/
def keyedBy (n : Int) : Value := .map [(.int n, .null)]

theorem accepts_keyedBy (n : Int) : (mapOf (.primitive .int) .any).Accepts (keyedBy n) := by
  refine .mapOf ?_ ?_
  · exact List.forall_mem_singleton.mpr (.int n)
  · exact List.forall_mem_singleton.mpr (.any _)

theorem not_accepts_keyedBy (n : Int) : ¬ (record 0 "Entry" []).Accepts (keyedBy n) := by
  rw [keyedBy, accepts_record_iff]
  rintro ⟨honly, -⟩
  obtain ⟨name, hname, -⟩ := honly _ (List.mem_singleton_self _)
  exact List.not_mem_nil hname

/-- A key that cannot be written ends the decoding of a mapping, although its value is accepted. -/
theorem decode_mapOf_keyedBy {n : Int} (hn : (Value.int n).isWritable = false) (path : List Text) :
    (mapOf (.primitive .int) .any).decode path (keyedBy n) = .error ⟨path, .unwritableKeys⟩ := by
  have hstep : valueStep path (.int n) = .error ⟨path, .unwritableKeys⟩ :=
    if_neg (Bool.eq_false_iff.mp hn)
  have hentry : decodeEntry (.primitive .int) .any path (.int n, .null) =
      .error ⟨path, .unwritableKeys⟩ :=
    bind_eq_error_iff.mpr (.inr ⟨.int n, rfl, bind_eq_error_iff.mpr (.inl hstep)⟩)
  rw [keyedBy, decode_mapOf]
  exact bind_eq_error_iff.mpr (.inl (bind_eq_error_iff.mpr (.inl hentry)))

/-- It ends the decoding of a record, which refuses the key. -/
theorem decode_record_keyedBy {n : Int} (hn : (Value.int n).isWritable = false) (path : List Text) :
    (record 0 "Entry" []).decode path (keyedBy n) = .error ⟨path, .unwritableKeys⟩ := by
  have hunknown : Mismatch.ofUnknown [.int n] = .unwritableKeys := by
    rw [Mismatch.ofUnknown, if_neg]
    simp only [List.all_cons, hn, Bool.false_and, Bool.false_eq_true, not_false_iff]
  show mismatch path (Mismatch.ofUnknown [.int n]) = _
  rw [hunknown]
  rfl

/-- The least natural number of too many digits. -/
def leastLong : Int := (Nat.pow 10 digitLimit : Nat)

/-- A key of too many digits ends the decoding without words, whether the mapping is accepted or is
refused for having the key at all. -/
theorem decode_longKey :
    (mapOf (.primitive .int) .any).Accepts (keyedBy leastLong) ∧
      (mapOf (.primitive .int) .any).decode [] (keyedBy leastLong) =
        .error ⟨[], .unwritableKeys⟩ ∧
      ¬ (record 0 "Entry" []).Accepts (keyedBy leastLong) ∧
      (record 0 "Entry" []).decode [] (keyedBy leastLong) = .error ⟨[], .unwritableKeys⟩ := by
  have hlong : (Value.int leastLong).isWritable = false := by decide +kernel
  exact ⟨accepts_keyedBy leastLong, decode_mapOf_keyedBy hlong [], not_accepts_keyedBy leastLong,
    decode_record_keyedBy hlong []⟩

end Shape

end Phrasebook
