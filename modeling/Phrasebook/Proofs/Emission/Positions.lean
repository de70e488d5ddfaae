/-
# Phrasebook.Proofs.Emission.Positions -- one position for a token in all that is generated

The position of a token is reported as a slot of its phrase, written into its setter as an index,
and implied by the place of the token in the call of the base constructor.  The three agree, for
repeated tokens too: a slot is the first occurrence, the setters come in the order of the tokens,
and so do the literals in the call.

The call is text.  Its arguments are the pieces that were joined in it, unless a token holds a
quotation mark or a backslash and so breaks the literal it stands in: tokens are not escaped, since
the check of names lets no such token pass.
-/
import Phrasebook.Proofs.Emission.Builder
import Phrasebook.Proofs.Emission.Determined
import Phrasebook.Proofs.Java.Escapes
import Phrasebook.Proofs.Phrase.Slots
import Phrasebook.Proofs.Text.Encoding
import Phrasebook.Report

namespace Phrasebook

open Java

/-! ## Methods of a class -/

/-- The methods among members, or the constructors, with their bodies. -/
def methodsOf (constructors : Bool) (members : List Node) : List (MethodHead × List Node) :=
  members.filterMap fun
    | .method head body => if head.isConstructor = constructors then some (head, body) else none
    | _ => none

/-- A body in which a value is stored under an index, by its name. -/
def StoresAt (body : List Node) (index : Nat) (name : Text) : Prop :=
  .statement (Action.store valuesName index name).text ∈ body

/-- The setter for a token at a position, with its body. -/
def setterFor (p : Phrase) (slot : Text × Nat) : MethodHead × List Node :=
  (setterHead p slot.1, (setterActions slot.1 slot.2).map fun a => .statement a.text)

theorem methodsOf_setters (p : Phrase) (start : Nat) (tokens : List Text) :
    methodsOf false (settersFrom p start tokens) = (tokens.zipIdx start).map (setterFor p) := by
  induction tokens generalizing start with
  | nil => rfl
  | cons t ts ih =>
    rw [settersFrom_cons, setter_eq, List.zipIdx_cons, List.map_cons, ← ih]
    rfl

theorem constructors_setters (p : Phrase) (start : Nat) (tokens : List Text) :
    methodsOf true (settersFrom p start tokens) = [] := by
  induction tokens generalizing start with
  | nil => rfl
  | cons t ts ih => exact ih (start + 1)

/-- The methods of a builder are its setters. -/
theorem methodsOf_builderClass (p : Phrase) :
    methodsOf false (builderClass p).members = p.tokens.zipIdx.map (setterFor p) :=
  methodsOf_setters p 0 p.tokens

/-! ## The index in a setter -/

theorem bracket_not_mem_ofNat (n : Nat) : (.scalar ']' : CodePoint) ∉ Text.ofNat n := by
  intro hm
  have hdigit := Text.isDigit_ofNat n _ hm
  exact absurd hdigit (by decide)

theorem ofNat_injective {m n : Nat} (h : Text.ofNat m = Text.ofNat n) : m = n := by
  have hread := congrArg Text.toNat? h
  rw [Text.toNat?_ofNat, Text.toNat?_ofNat] at hread
  exact Option.some.inj hread

/-- The index and the name of a store are known by its text. -/
theorem store_text_inj {i j : Nat} {s t : Text}
    (h : (Action.store valuesName i s).text = (Action.store valuesName j t).text) :
    i = j ∧ s = t := by
  have hsplit : ∀ (n : Nat) (u : Text), (Action.store valuesName n u).text =
      valuesName ++ "[" ++ (Text.ofNat n ++ .scalar ']' :: (Text.ofString " = " ++ u)) := by
    intro n u
    simp only [Action.text, List.append_assoc]
    rfl
  rw [hsplit, hsplit] at h
  obtain ⟨hindex, hname⟩ := Text.append_sep_inj (bracket_not_mem_ofNat i) (bracket_not_mem_ofNat j)
    (List.append_cancel_left h)
  exact ⟨ofNat_injective hindex, List.append_cancel_left hname⟩

/-- A setter stores under its own position, and the value of its own parameter. -/
theorem storesAt_setterFor {p : Phrase} {slot : Text × Nat} {i : Nat} {t : Text} :
    StoresAt (setterFor p slot).2 i t ↔ slot = (t, i) := by
  have hreturn : (Action.store valuesName i t).text ≠ Action.returnThis.text := by
    intro heq
    have hhead : some (CodePoint.scalar 'v') = some (.scalar 'r') := congrArg List.head? heq
    exact absurd hhead (by decide)
  simp only [StoresAt, setterFor, setterActions, List.map_cons, List.map_nil, List.mem_cons,
    List.not_mem_nil, or_false, Node.statement.injEq, hreturn]
  constructor
  · intro h
    obtain ⟨hindex, hname⟩ := store_text_inj h
    exact Prod.ext hname.symm hindex.symm
  · rintro rfl
    rfl

/-- Of the methods with the name of a token the first is the setter for its first position. -/
theorem find?_zipIdx {tokens : List Text} {t : Text} {i : Nat} (start : Nat)
    (h : FirstAt tokens t i) :
    (tokens.zipIdx start).find? (fun slot => slot.1 = t) = some (t, start + i) := by
  induction tokens generalizing start i with
  | nil => exact absurd h.mem List.not_mem_nil
  | cons u us ih =>
    rw [List.zipIdx_cons]
    rcases firstAt_cons.mp h with ⟨rfl, rfl⟩ | ⟨hne, j, rfl, hj⟩
    · rw [List.find?_cons_of_pos (by simp)]
      rfl
    · rw [List.find?_cons_of_neg (by simpa using hne), ih (start + 1) hj]
      congr 2
      omega

/-! ## The call of the base constructor -/

/-- Every second of the pieces, from the second one on. -/
def contents : List Text → List Text
  | [] | [_] => []
  | _ :: content :: rest => content :: contents rest

/-- The contents of the string literals in code without a backslash: by turns the text between two
quotation marks is outside and inside of a literal. -/
def literalsOf (code : Text) : List Text := contents (Text.split quote code)

/-- A token that cannot break the literal it stands in. -/
def Unescaped (t : Text) : Prop := quote ∉ t ∧ backslash ∉ t

/-- An identifier breaks no literal. -/
theorem unescaped_of_isIdentifier {t : Text} (h : isIdentifier t = true) : Unescaped t :=
  ⟨fun hm => ne_of_isCodeChar (isCodeChar_of_mem_identifier h hm) (by decide) rfl,
    fun hm => ne_of_isCodeChar (isCodeChar_of_mem_identifier h hm) (by decide) rfl⟩

theorem literalsOf_cons {before content rest : Text} (hbefore : quote ∉ before)
    (hcontent : quote ∉ content) :
    literalsOf (before ++ quote :: (content ++ quote :: rest)) = content :: literalsOf rest := by
  rw [literalsOf, Text.split_append_cons hbefore, Text.split_append_cons hcontent, contents,
    literalsOf]

open Listing in
/-- Literals after a comma each are read one after the other. -/
theorem literalsOf_moreLiterals {tokens : List Text} (h : ∀ t ∈ tokens, quote ∉ t) {before : Text}
    (hbefore : quote ∉ before) {after : Text} (hafter : quote ∉ after) :
    literalsOf (before ++ (moreLiterals tokens ++ after)) = tokens := by
  induction tokens generalizing before with
  | nil =>
    have hnone : quote ∉ before ++ after := by simp [hbefore, hafter]
    show literalsOf (before ++ after) = []
    rw [literalsOf, Text.split_of_not_mem hnone, contents]
  | cons t ts ih =>
    have hcomma : quote ∉ before ++ ", " := by simp [hbefore]; decide
    have hsplit : before ++ (moreLiterals (t :: ts) ++ after) =
        (before ++ ", ") ++ quote :: (t ++ quote :: ([] ++ (moreLiterals ts ++ after))) := by
      simp only [moreLiterals, List.flatMap_cons, literal, List.append_assoc]
      rfl
    rw [hsplit, literalsOf_cons hcomma (h t (List.mem_cons_self ..)),
      ih (fun u hu => h u (List.mem_cons_of_mem t hu)) List.not_mem_nil]

/-- The statement of the constructor of a builder. -/
def superCall (p : Phrase) : Text := "super(" ++ Text.join ", " (p.tokens.map quoteToken) ++ ")"

theorem constructors_builderClass (p : Phrase) :
    methodsOf true (builderClass p).members =
      [({ name := p.className, modifiers := [.isPrivate] }, [.statement (superCall p)])] := by
  show _ :: methodsOf true (settersFrom p 0 p.tokens) = _
  rw [constructors_setters]
  rfl

open Listing in
/-- The literals in the call are the tokens, if no token ends its literal. -/
theorem literalsOf_superCall {p : Phrase} (h : ∀ t ∈ p.tokens, quote ∉ t) :
    literalsOf (superCall p) = p.tokens := by
  unfold superCall
  cases htokens : p.tokens with
  | nil => decide
  | cons t ts =>
    rw [htokens] at h
    have hsplit : ("super(" : Text) ++ Text.join ", " ((t :: ts).map quoteToken) ++ ")" =
        "super(" ++ quote :: (t ++ quote :: ([] ++ (moreLiterals ts ++ Text.ofString ")"))) := by
      show ("super(" : Text) ++ Text.join ", " ((t :: ts).map literal) ++ ")" = _
      rw [join_literals]
      simp only [literal, List.append_assoc]
      rfl
    have hopen : quote ∉ Text.ofString "super(" := by decide
    have hclose : quote ∉ Text.ofString ")" := by decide
    rw [hsplit, literalsOf_cons hopen (h t (List.mem_cons_self ..)),
      literalsOf_moreLiterals (fun u hu => h u (List.mem_cons_of_mem t hu)) List.not_mem_nil hclose]

theorem quoteToken_injective {s t : Text} (h : quoteToken s = quoteToken t) : s = t := by
  simp only [quoteToken, List.append_assoc] at h
  exact List.append_cancel_right (List.append_cancel_left h)

/-! ## The slots in a listing -/

/-- A member of a new name comes last. -/
theorem setMember_of_not_mem {members : List (Text × Json)} {name : Text}
    (h : name ∉ members.map Prod.fst) (value : Json) :
    setMember members name value = members ++ [(name, value)] := by
  induction members with
  | nil => rfl
  | cons m members ih =>
    simp only [List.map_cons, List.mem_cons, not_or] at h
    rw [setMember, if_neg fun heq => h.1 heq.symm, ih h.2, List.cons_append]

/-- Members of different names, all of which can be encoded, are set in their order. -/
theorem foldl_setMember {slots : List (Text × Nat)}
    (hslots : slots.Pairwise fun a b => a.1 ≠ b.1) (hreplaced : ∀ s ∈ slots, s.1.replaced = s.1)
    {members : List (Text × Json)} (hnew : ∀ s ∈ slots, s.1 ∉ members.map Prod.fst) :
    slots.foldl (fun members (token, position) =>
      setMember members token.replaced (.int position)) members =
      members ++ slots.map fun (token, position) => (token, .int position) := by
  induction slots generalizing members with
  | nil => rw [List.foldl_nil, List.map_nil, List.append_nil]
  | cons slot slots ih =>
    obtain ⟨hne, hslots⟩ := List.pairwise_cons.mp hslots
    have hfirst : setMember members slot.1.replaced (.int slot.2) =
        members ++ [(slot.1, .int slot.2)] := by
      rw [hreplaced slot (List.mem_cons_self ..)]
      exact setMember_of_not_mem (hnew slot (List.mem_cons_self ..)) _
    have hnext : ∀ s ∈ slots, s.1 ∉ (members ++ [(slot.1, Json.int slot.2)]).map Prod.fst := by
      intro s hs hm
      rw [List.map_append, List.mem_append] at hm
      rcases hm with hm | hm
      · exact hnew s (List.mem_cons_of_mem _ hs) hm
      · exact hne s hs (List.mem_singleton.mp hm).symm
    rw [List.foldl_cons]
    show slots.foldl _ (setMember members slot.1.replaced (.int slot.2)) = _
    rw [hfirst, ih hslots (fun s hs => hreplaced s (List.mem_cons_of_mem _ hs)) hnext,
      List.append_assoc]
    rfl

/-- The slots of a phrase are listed as they are, if its tokens have a form in bytes. -/
theorem Phrase.slotMembers_of_encoded {p : Phrase} (h : ∀ t ∈ p.tokens, t.encode?.isSome) :
    p.slotMembers = p.slots.map fun (t, i) => (t, .int i) := by
  have hreplaced : ∀ s ∈ p.slots, s.1.replaced = s.1 := fun s hs =>
    Text.replaced_of_encode? (h s.1 (p.mem_slots_iff.mp hs).mem)
  have hdistinct := (pairwise_firstPositions 0 p.tokens).imp And.left
  exact foldl_setMember hdistinct hreplaced fun _ _ => List.not_mem_nil

/-! ## The laws of slots -/

/-- What holds of the slots of every phrase. -/
structure SlotLaws (p : Phrase) : Prop where
  /-- Every token of the phrase has a slot. -/
  complete : ∀ t, t ∈ p.tokens ↔ ∃ i, (t, i) ∈ p.slots
  /-- No token has two, and they come in the order in which the tokens appear first. -/
  ordered : p.slots.Pairwise fun a b => a.1 ≠ b.1 ∧ a.2 < b.2
  /-- The slot of a token is the least position at which the token stands. -/
  least : ∀ t i, (t, i) ∈ p.slots ↔ FirstAt p.tokens t i
  /-- It is the one index under which the first method named like the token stores it. -/
  setter : ∀ t i, (t, i) ∈ p.slots →
    ∃ m, (methodsOf false (builderClass p).members).find? (fun m => m.1.name = t) = some m ∧
      ∀ j, StoresAt m.2 j t ↔ j = i
  /-- It is the first place of the quoted token among what the base constructor is called with. -/
  joined : ∃ head arguments, methodsOf true (builderClass p).members =
      [(head, [.statement ("super(" ++ Text.join ", " arguments ++ ")")])] ∧
    ∀ t i, (t, i) ∈ p.slots → FirstAt arguments (quoteToken t) i
  /-- It is the first place of the token among the arguments that are read from the call, if all of
  them can be read. -/
  argument : (∀ t ∈ p.tokens, Unescaped t) → ∃ head call,
    methodsOf true (builderClass p).members = [(head, [.statement call])] ∧
      ∀ t i, (t, i) ∈ p.slots → FirstAt (literalsOf call) t i
  /-- It is what a listing shows, if the tokens have a form in bytes. -/
  listed : (∀ t ∈ p.tokens, t.encode?.isSome) →
    p.slotMembers = p.slots.map fun (t, i) => (t, .int i)

/-- What holds besides of a phrase with different tokens. -/
structure SlotBijection (p : Phrase) : Prop where
  bound : ∀ t i, (t, i) ∈ p.slots → t ∈ p.tokens ∧ i < p.tokens.length
  position : ∀ t ∈ p.tokens, ∃! i, (t, i) ∈ p.slots
  token : ∀ i < p.tokens.length, ∃! t, (t, i) ∈ p.slots
  /-- Every token has exactly one setter. -/
  setter : ∀ t ∈ p.tokens,
    ((methodsOf false (builderClass p).members).filter fun m => m.1.name = t).length = 1
  /-- No two setters store under the same index. -/
  indices : (methodsOf false (builderClass p).members).Pairwise fun m m' =>
    ∀ i t t', StoresAt m.2 i t → ¬ StoresAt m'.2 i t'

theorem slotLaws (p : Phrase) : SlotLaws p := by
  refine ⟨?complete, pairwise_firstPositions 0 p.tokens, fun t i => p.mem_slots_iff, ?setter,
    ?joined, ?argument, ?listed⟩
  case complete =>
    intro t
    simp only [Phrase.mem_slots_iff]
    exact ⟨exists_firstAt, fun ⟨_, h⟩ => h.mem⟩
  case setter =>
    intro t i hslot
    refine ⟨setterFor p (t, i), ?_, fun j => ?_⟩
    · rw [methodsOf_builderClass, List.find?_map]
      show Option.map (setterFor p) (p.tokens.zipIdx.find? fun slot => slot.1 = t) = _
      rw [find?_zipIdx 0 (p.mem_slots_iff.mp hslot), Nat.zero_add]
      rfl
    · rw [storesAt_setterFor, Prod.mk.injEq]
      exact ⟨fun h => h.2.symm, fun h => ⟨rfl, h.symm⟩⟩
  case joined =>
    refine ⟨_, _, constructors_builderClass p, fun t i hslot => ?_⟩
    exact (p.mem_slots_iff.mp hslot).map fun _ _ => quoteToken_injective
  case argument =>
    intro hplain
    refine ⟨_, _, constructors_builderClass p, fun t i hslot => ?_⟩
    rw [literalsOf_superCall fun u hu => (hplain u hu).1]
    exact p.mem_slots_iff.mp hslot
  case listed => exact Phrase.slotMembers_of_encoded

theorem slotBijection {p : Phrase} (h : p.tokens.Nodup) : SlotBijection p := by
  have hslot : ∀ t i, (t, i) ∈ p.slots ↔ p.tokens[i]? = some t := fun t i =>
    p.mem_slots_iff.trans (firstAt_iff_of_nodup h)
  refine ⟨?bound, ?position, ?token, ?setter, ?indices⟩
  case bound =>
    intro t i hi
    have hfirst := p.mem_slots_iff.mp hi
    exact ⟨hfirst.mem, hfirst.lt⟩
  case position =>
    intro t ht
    obtain ⟨i, hi⟩ := exists_firstAt ht
    exact ⟨i, p.mem_slots_iff.mpr hi, fun j hj => (p.mem_slots_iff.mp hj).unique hi⟩
  case token =>
    intro i hi
    have hat : p.tokens[i]? = some p.tokens[i] := List.getElem?_eq_getElem hi
    refine ⟨p.tokens[i], (hslot _ i).mpr hat, fun u hu => ?_⟩
    exact Option.some.inj (((hslot u i).mp hu).symm.trans hat)
  case setter =>
    intro t ht
    calc ((methodsOf false (builderClass p).members).filter fun m => m.1.name = t).length
        = (p.tokens.zipIdx.map Prod.fst).countP (fun u => u = t) := by
          rw [methodsOf_builderClass, ← List.countP_eq_length_filter, List.countP_map,
            List.countP_map]
          rfl
      _ = p.tokens.count t := by
          rw [List.zipIdx_map_fst]
          exact List.countP_congr fun u _ => by simp
      _ = 1 := List.count_eq_one_of_mem h ht
  case indices =>
    have hpositions : p.tokens.zipIdx.Pairwise fun a b => a.2 ≠ b.2 := by
      apply List.pairwise_map.mp
      rw [List.zipIdx_map_snd]
      exact List.nodup_range'
    rw [methodsOf_builderClass, List.pairwise_map]
    refine hpositions.imp fun hne i t t' hstore hstore' => hne ?_
    rw [storesAt_setterFor.mp hstore, storesAt_setterFor.mp hstore']

/-- The slots of a phrase are the positions of its tokens wherever these are generated; in a batch
that passes the check they are one for each token, so are the setters, and no token breaks the
literal it stands in. -/
theorem slots_generated (p : Phrase) :
    SlotLaws p ∧ ∀ b : Batch, b.check = .ok () → p ∈ b.phrases →
      SlotBijection p ∧ ∀ t ∈ p.tokens, Unescaped t := by
  refine ⟨slotLaws p, fun b hb hp => ?_⟩
  have hlegal := (Batch.check_eq_ok_iff.mp hb).phrases p hp
  exact ⟨slotBijection hlegal.distinct, fun t ht => unescaped_of_isIdentifier (hlegal.tokens t ht)⟩

/-- A phrase that repeats a token. -/
def echo : Phrase := ⟨"echo", none, ["word", "again", "word"]⟩

example : echo.slots = [(Text.ofString "word", 0), (Text.ofString "again", 1)] := by decide

theorem slots_welcome :
    (⟨"app.strings", [welcome]⟩ : Batch).check = .ok () ∧
      welcome ∈ (⟨"app.strings", [welcome]⟩ : Batch).phrases ∧ SlotBijection welcome ∧
      ∀ t ∈ welcome.tokens, Unescaped t := by
  have hcheck : (⟨"app.strings", [welcome]⟩ : Batch).check = .ok () := rfl
  have hmem : welcome ∈ (⟨"app.strings", [welcome]⟩ : Batch).phrases := List.mem_singleton_self _
  exact ⟨hcheck, hmem, (slots_generated welcome).2 _ hcheck hmem⟩

/-- A phrase with a token that ends its literal and begins another one. -/
def quoting : Phrase := ⟨"p", none, ["a\", \"b", "c"]⟩

/-- Its second token is the third argument that is read from the call. -/
theorem argument_quoting :
    (Text.ofString "c", 1) ∈ quoting.slots ∧ ∃ head call,
      methodsOf true (builderClass quoting).members = [(head, [.statement call])] ∧
        call = "super(\"a\", \"b\", \"c\")" ∧ FirstAt (literalsOf call) "c" 2 ∧
        ¬ FirstAt (literalsOf call) "c" 1 := by
  have hcall : superCall quoting = "super(\"a\", \"b\", \"c\")" := by decide
  exact ⟨by decide, _, _, constructors_builderClass quoting, hcall, by decide, by decide⟩

end Phrasebook
