/-
# Phrasebook.Proofs.Emission.Builder -- what calls of the setters do to a builder

A builder starts with the array of its tokens and an array of as many nulls.  The setter for a token
stores its argument at the position of the token, so after any sequence of calls each position holds
the last string handed to its setter.

There is one exception.  A parameter hides a field of its name, so in the setter of a token that is
named like the field `values` the name stands for the argument, a string, and the store into it has
no type.  The check of a batch lets this token pass.
-/
import Phrasebook.Proofs.Emission.Names
import Phrasebook.Proofs.Java.Execution

namespace Phrasebook

open Java

/-! ## The builder as a class -/

/-- The builder class of a phrase over the base class of all builders. -/
def builder (p : Phrase) : Java.Class := ⟨builderClass p, basePhraseClass⟩

/-- The field that holds what has been set. -/
def valuesName : Text := "values"

/-- A token of a phrase that does not hide the field its setter stores into. -/
def Phrase.Settable (p : Phrase) (t : Text) : Prop := t ∈ p.tokens ∧ t ≠ valuesName

/-- What a builder holds after its construction: the tokens, and as many nulls. -/
def freshStorage (p : Phrase) : Storage := fun name =>
  if name = "keys" then .array (p.tokens.map some)
  else if name = valuesName then .array (List.replicate p.tokens.length none)
  else .null

/-- The declaration of the setter for a token. -/
def setterHead (p : Phrase) (token : Text) : MethodHead where
  name := token
  returnType := some p.className
  modifiers := [.isPublic]
  params := [⟨"String", token⟩]

/-- The statements of the setter for the token at a position. -/
def setterActions (token : Text) (position : Nat) : List Action :=
  [.store valuesName position token, .returnThis]

theorem setter_eq (p : Phrase) (token : Text) (position : Nat) :
    setter p token position =
      .method (setterHead p token)
        ((setterActions token position).map fun a => .statement a.text) := rfl

/-- The body of a setter can be read. -/
theorem actions?_setter {token : Text} (h : isIdentifier token = true) (position : Nat) :
    actions? ((setterActions token position).map fun a => .statement a.text) =
      some (setterActions token position) := by
  have hstore : Action.ofText? (Action.store valuesName position token).text =
      some (.store valuesName position token) := Action.ofText?_text ⟨by decide, h⟩
  have hreturn : Action.ofText? Action.returnThis.text = some .returnThis := rfl
  simp only [actions?, setterActions, List.map_cons, List.map_nil, List.mapM_cons, List.mapM_nil,
    hstore, hreturn]
  rfl

/-- The setter of a token is found among setters for different tokens. -/
theorem methodOf?_setters (p : Phrase) {tokens : List Text} {t : Text} {i : Nat} (start : Nat)
    (hdistinct : tokens.Nodup) (hi : tokens[i]? = some t) :
    methodOf? (settersFrom p start tokens) (setterSignature t) =
      some (setterHead p t, (setterActions t (start + i)).map fun a => .statement a.text) := by
  induction tokens generalizing i start with
  | nil => simp at hi
  | cons u us ih =>
    obtain ⟨hnew, hdistinct⟩ := List.nodup_cons.mp hdistinct
    rw [settersFrom_cons, setter_eq]
    cases i with
    | zero =>
      obtain rfl : u = t := Option.some.inj hi
      exact methodOf?_cons_self rfl _ _
    | succ j =>
      have hj : us[j]? = some t := hi
      -- The setter of an earlier token has another name.
      have hne : (setterHead p u).signature ≠ setterSignature t := by
        intro heq
        have hut : u = t := congrArg Prod.fst heq
        exact hnew (hut ▸ List.mem_of_getElem? hj)
      have hposition : start + 1 + j = start + (j + 1) := by omega
      rw [methodOf?_cons_ne hne, ih (start + 1) hdistinct hj, hposition]

/-- A call reaches the setter of its token. -/
theorem method?_setter {p : Phrase} (hp : p.Legal) {t : Text} {i : Nat}
    (hi : p.tokens[i]? = some t) :
    (builder p).method? t 1 =
      some (setterHead p t, (setterActions t i).map fun a => .statement a.text) := by
  have hfound := methodOf?_setters p 0 hp.distinct hi
  rw [Nat.zero_add] at hfound
  -- The constructor, which comes first, has no parameter.
  have hconstructor : ({ name := p.className, modifiers := [.isPrivate] } : MethodHead).signature ≠
      setterSignature t := fun heq => List.cons_ne_nil _ _ (congrArg Prod.snd heq).symm
  exact (methodOf?_cons_ne hconstructor _ _).trans hfound

/-! ## Names in a setter -/

/-- The parameter of a setter is what its name stands for. -/
theorem referent?_token (p : Phrase) (t : Text) :
    ((builder p).scope (setterHead p t)).referent? t = some (.param ⟨"String", t⟩) := by
  simp [Scope.referent?, Java.Class.scope, setterHead]

/-- Setters declare no fields. -/
theorem fieldsOf_setters (p : Phrase) (start : Nat) (tokens : List Text) :
    fieldsOf (settersFrom p start tokens) = [] := by
  induction tokens generalizing start with
  | nil => rfl
  | cons t ts ih => exact ih (start + 1)

/-- Of the fields of the base class, builders see the one that holds the values. -/
theorem fields_scope (p : Phrase) (head : MethodHead) :
    ((builder p).scope head).fields = [⟨"String[]", valuesName, [.isFinal]⟩] := by
  have hown : fieldsOf (builderClass p).members = [] := fieldsOf_setters p 0 p.tokens
  show fieldsOf (builderClass p).members ++ _ = _
  rw [hown]
  rfl

/-- Unless the token is named like it, the field is what its name stands for. -/
theorem referent?_values {p : Phrase} {t : Text} (h : t ≠ valuesName) :
    ((builder p).scope (setterHead p t)).referent? valuesName =
      some (.field ⟨"String[]", valuesName, [.isFinal]⟩) := by
  unfold Scope.referent?
  rw [fields_scope]
  have hparam : ((builder p).scope (setterHead p t)).method.params.find?
      (fun q => q.name = valuesName) = none := by
    simp [Java.Class.scope, setterHead, h]
  rw [hparam]
  simp

/-- A setter is well-typed exactly if its token does not hide the field. -/
theorem wellTypedCall_iff {p : Phrase} (hp : p.Legal) {t : Text} (ht : t ∈ p.tokens) :
    (builder p).WellTypedCall t 1 ↔ t ≠ valuesName := by
  obtain ⟨i, hi⟩ := List.getElem?_of_mem ht
  have hmethod := method?_setter hp hi
  have hactions := actions?_setter (hp.tokens t ht) i
  have htoken : ((builder p).scope (setterHead p t)).type? t = some "String" := by
    rw [Scope.type?, referent?_token]
    rfl
  constructor
  · rintro ⟨head, body, actions, hm, ha, hall⟩ rfl
    rw [hmethod] at hm
    obtain ⟨rfl, rfl⟩ := Prod.mk.inj (Option.some.inj hm)
    obtain rfl := Option.some.inj (hactions.symm.trans ha)
    obtain ⟨-, htype⟩ := hall _ (List.mem_cons_self ..)
    rw [htoken] at htype
    exact absurd htype (by decide)
  · intro hne
    refine ⟨_, _, _, hmethod, hactions, ?_⟩
    intro a ha
    rcases List.mem_cons.mp ha with rfl | ha
    · refine ⟨by rw [htoken]; rfl, ?_⟩
      rw [htoken, Scope.type?, referent?_values hne]
      rfl
    · rw [List.mem_singleton.mp ha]
      rfl

/-! ## Calls -/

/-- The call of a setter, as what it does to an array of values. -/
theorem call_setter {p : Phrase} (hp : p.Legal) {t : Text} {i : Nat} (hi : p.tokens[i]? = some t)
    (hne : t ≠ valuesName) (argument : Text) {storage : Storage} {items : List (Option Text)}
    (hvalues : storage valuesName = .array items) (hlen : items.length = p.tokens.length) :
    (builder p).call t [argument] storage =
      some (Function.update storage valuesName (.array (items.set i (some argument)))) := by
  have ht : t ∈ p.tokens := List.mem_of_getElem? hi
  have hbound : i < items.length := by
    rw [hlen]
    exact (List.getElem?_eq_some_iff.mp hi).1
  have hdenote : ((builder p).scope (setterHead p t)).denote [argument] storage t =
      some (.text argument) := by
    rw [Scope.denote, referent?_token]
    simp [Java.Class.scope, setterHead]
  have hstore : ((builder p).scope (setterHead p t)).store storage valuesName i argument =
      some (Function.update storage valuesName (.array (items.set i (some argument)))) := by
    rw [Scope.store, referent?_values hne]
    simp only [hvalues, hbound, if_true]
  unfold Java.Class.call
  rw [List.length_singleton, method?_setter hp hi]
  simp only [bind, Option.bind, actions?_setter (hp.tokens t ht) i]
  simp only [setterActions, Scope.run, hdenote, hstore, Option.bind, if_true]

/-- The setter of a token that hides the field cannot be executed. -/
theorem call_values {p : Phrase} (hp : p.Legal) (ht : valuesName ∈ p.tokens) (argument : Text)
    (storage : Storage) : (builder p).call valuesName [argument] storage = none := by
  obtain ⟨i, hi⟩ := List.getElem?_of_mem ht
  have hstore : ∀ argument, ((builder p).scope (setterHead p valuesName)).store storage valuesName i
      argument = none := by
    intro argument
    rw [Scope.store, referent?_token]
  unfold Java.Class.call
  rw [List.length_singleton, method?_setter hp hi]
  simp only [bind, Option.bind, actions?_setter (hp.tokens _ ht) i]
  simp only [setterActions, Scope.run, hstore, Option.bind]
  split <;> rfl

/-! ## Sequences of calls -/

/-- The string that the last call for a token hands over. -/
def lastArgument (t : Text) : List (Text × Text) → Option Text
  | [] => none
  | c :: cs => (lastArgument t cs).or (if c.1 = t then some c.2 else none)

/-- The values after calls, from the values before them. -/
def valuesAfter (p : Phrase) (sequence : List (Text × Text)) (items : List (Option Text)) :
    List (Option Text) :=
  List.zipWith (fun t old => (lastArgument t sequence).or old) p.tokens items

/-- One more call in front stores its argument first. -/
theorem valuesAfter_cons {p : Phrase} (hdistinct : p.tokens.Nodup) {t argument : Text} {i : Nat}
    (hi : p.tokens[i]? = some t) (sequence : List (Text × Text)) (items : List (Option Text)) :
    valuesAfter p ((t, argument) :: sequence) items =
      valuesAfter p sequence (items.set i (some argument)) := by
  obtain ⟨hbound, hget⟩ := List.getElem?_eq_some_iff.mp hi
  apply List.ext_getElem
  · simp [valuesAfter]
  · intro j hj hj'
    have hj₁ : j < p.tokens.length := by
      have := hj
      simp only [valuesAfter, List.length_zipWith] at this
      omega
    -- Tokens are different, so the call is for the token at `j` only if `j` is its position.
    have hposition : t = p.tokens[j] ↔ i = j := by
      rw [← hget]
      exact List.Nodup.getElem_inj_iff hdistinct
    simp only [valuesAfter, List.getElem_zipWith, lastArgument, List.getElem_set, hposition]
    by_cases hij : i = j
    · simp [hij]
    · simp [hij]

/-- Calls of well-typed setters store the last argument of each token and nothing else. -/
theorem calls_eq {p : Phrase} (hp : p.Legal) {sequence : List (Text × Text)}
    (hcalls : ∀ c ∈ sequence, p.Settable c.1) {storage : Storage}
    {items : List (Option Text)} (hvalues : storage valuesName = .array items)
    (hlen : items.length = p.tokens.length) :
    (builder p).calls sequence storage =
      some (Function.update storage valuesName (.array (valuesAfter p sequence items))) := by
  induction sequence generalizing storage items with
  | nil =>
    have hsame : valuesAfter p [] items = items := by
      apply List.ext_getElem
      · simp [valuesAfter, hlen]
      · intro j hj hj'
        simp [valuesAfter, lastArgument]
    rw [hsame, ← hvalues, Function.update_eq_self]
    rfl
  | cons c cs ih =>
    obtain ⟨t, argument⟩ := c
    obtain ⟨ht, hne⟩ : p.Settable t := hcalls _ (List.mem_cons_self ..)
    obtain ⟨i, hi⟩ := List.getElem?_of_mem ht
    have hfirst := call_setter hp hi hne argument hvalues hlen
    have hrest := ih (fun d hd => hcalls d (List.mem_cons_of_mem _ hd))
      (Function.update_self valuesName (.array (items.set i (some argument))) storage)
      ((List.length_set ..).trans hlen)
    rw [Function.update_idem] at hrest
    rw [valuesAfter_cons hp.distinct hi]
    show ((builder p).call t [argument] storage).bind ((builder p).calls cs) = _
    rw [hfirst]
    exact hrest

/-- On a fresh builder the values after calls are the last arguments. -/
theorem calls_fresh {p : Phrase} (hp : p.Legal) {sequence : List (Text × Text)}
    (hcalls : ∀ c ∈ sequence, p.Settable c.1) :
    (builder p).calls sequence (freshStorage p) =
      some (Function.update (freshStorage p) valuesName
        (.array (p.tokens.map fun t => lastArgument t sequence))) := by
  have hfresh : valuesAfter p sequence (List.replicate p.tokens.length none) =
      p.tokens.map fun t => lastArgument t sequence := by
    apply List.ext_getElem
    · simp [valuesAfter]
    · intro j hj hj'
      simp [valuesAfter]
  rw [← hfresh]
  exact calls_eq hp hcalls rfl (List.length_replicate ..)

theorem lastArgument_append (t : Text) (before after : List (Text × Text)) :
    lastArgument t (before ++ after) = (lastArgument t after).or (lastArgument t before) := by
  induction before with
  | nil => simp [lastArgument]
  | cons c cs ih => rw [List.cons_append, lastArgument, ih, lastArgument, Option.or_assoc]

/-- Two neighbouring calls for different tokens can be exchanged. -/
theorem lastArgument_swap {s t : Text} (hne : s ≠ t) (a b u : Text)
    (before after : List (Text × Text)) :
    lastArgument u (before ++ (s, a) :: (t, b) :: after) =
      lastArgument u (before ++ (t, b) :: (s, a) :: after) := by
  rw [lastArgument_append, lastArgument_append]
  congr 1
  simp only [lastArgument, Option.or_assoc]
  congr 1
  by_cases hs : s = u
  · have ht : t ≠ u := fun h => hne (hs.trans h.symm)
    simp [hs, ht]
  · simp [hs]

/-! ## The laws of builders -/

/-- What the generated builder of a phrase promises about its setters. -/
structure BuilderLaws (p : Phrase) : Prop where
  /-- A setter is well-typed exactly if its token does not hide the field. -/
  wellTyped : ∀ t ∈ p.tokens, (builder p).WellTypedCall t 1 ↔ t ≠ valuesName
  /-- Any calls of the other setters can be executed on a fresh builder, and then every position
  holds the argument of the last call for its token, or null. -/
  lastWins : ∀ sequence : List (Text × Text), (∀ c ∈ sequence, p.Settable c.1) →
    ∃ storage, (builder p).calls sequence (freshStorage p) = some storage ∧
      storage valuesName = .array (p.tokens.map fun t => lastArgument t sequence)
  /-- One more call changes the position of its token and nothing else. -/
  frame : ∀ sequence : List (Text × Text), (∀ c ∈ sequence, p.Settable c.1) →
    ∀ (t argument : Text) (i : Nat), p.Settable t → p.tokens[i]? = some t →
    ∃ before after items, (builder p).calls sequence (freshStorage p) = some before ∧
      (builder p).calls (sequence ++ [(t, argument)]) (freshStorage p) = some after ∧
      before valuesName = .array items ∧
      after valuesName = .array (items.set i (some argument)) ∧
      ∀ name, name ≠ valuesName → after name = before name
  /-- Calls for different tokens can be made in either order. -/
  commute : ∀ before after : List (Text × Text), ∀ s t a b : Text,
    (∀ c ∈ before ++ (s, a) :: (t, b) :: after, p.Settable c.1) → s ≠ t →
    (builder p).calls (before ++ (s, a) :: (t, b) :: after) (freshStorage p) =
      (builder p).calls (before ++ (t, b) :: (s, a) :: after) (freshStorage p)
  /-- The setter whose token hides the field cannot be executed. -/
  hidden : valuesName ∈ p.tokens → ∀ argument storage,
    (builder p).call valuesName [argument] storage = none

/-- One more call on what calls on a fresh builder have left. -/
theorem calls_snoc {p : Phrase} (hp : p.Legal) {sequence : List (Text × Text)}
    (hcalls : ∀ c ∈ sequence, p.Settable c.1) {t : Text} (ht : p.Settable t) (argument : Text)
    {i : Nat} (hi : p.tokens[i]? = some t) {before : Storage} {items : List (Option Text)}
    (hbefore : (builder p).calls sequence (freshStorage p) = some before)
    (hitems : before valuesName = .array items) :
    (builder p).calls (sequence ++ [(t, argument)]) (freshStorage p) =
      some (Function.update before valuesName (.array (items.set i (some argument)))) := by
  have hlen : items.length = p.tokens.length := by
    rw [calls_fresh hp hcalls, Option.some.injEq] at hbefore
    rw [← hbefore, Function.update_self, Datum.array.injEq] at hitems
    rw [← hitems, List.length_map]
  have hcall := call_setter hp hi ht.2 argument hitems hlen
  rw [Java.Class.calls, List.foldlM_append]
  show ((builder p).calls sequence (freshStorage p)).bind _ = _
  rw [hbefore]
  show ((builder p).call t [argument] before).bind some = _
  rw [hcall]
  rfl

/-- The builders of every accepted batch keep the laws. -/
theorem builderLaws_of_check {b : Batch} (h : b.check = .ok ()) {p : Phrase}
    (hp : p ∈ b.phrases) : BuilderLaws p := by
  have hlegal : p.Legal := (Batch.check_eq_ok_iff.mp h).phrases p hp
  refine ⟨?wellTyped, ?lastWins, ?frame, ?commute, ?hidden⟩
  case wellTyped => exact fun t ht => wellTypedCall_iff hlegal ht
  case lastWins =>
    intro sequence hcalls
    exact ⟨_, calls_fresh hlegal hcalls, Function.update_self ..⟩
  case frame =>
    intro sequence hcalls t argument i ht hi
    have hbefore := calls_fresh hlegal hcalls
    have hitems : Function.update (freshStorage p) valuesName
        (.array (p.tokens.map fun t => lastArgument t sequence)) valuesName =
        .array (p.tokens.map fun t => lastArgument t sequence) := Function.update_self ..
    refine ⟨_, _, _, hbefore, calls_snoc hlegal hcalls ht argument hi hbefore hitems, hitems,
      Function.update_self .., ?_⟩
    intro name hname
    exact Function.update_of_ne hname _ _
  case commute =>
    intro before after s t a b hcalls hne
    have hswapped : ∀ c ∈ before ++ (t, b) :: (s, a) :: after, p.Settable c.1 := by
      intro c hc
      apply hcalls c
      simp only [List.mem_append, List.mem_cons] at hc ⊢
      tauto
    rw [calls_fresh hlegal hcalls, calls_fresh hlegal hswapped]
    simp only [lastArgument_swap hne]
  case hidden => exact fun ht argument storage => call_values hlegal ht argument storage

/-- A phrase two of whose tokens are named like the fields of the base class. -/
def fieldNamedPhrase : Phrase := ⟨"p", none, ["keys", "b", "values"]⟩

example : ((builder fieldNamedPhrase).calls [("b", "1"), ("keys", "2"), ("b", "3")]
    (freshStorage fieldNamedPhrase)).map (· valuesName) =
      some (.array [some "2", some "3", none]) := by decide

theorem builderLaws_fieldNamed :
    (⟨"app", [fieldNamedPhrase]⟩ : Batch).check = .ok () ∧ BuilderLaws fieldNamedPhrase :=
  ⟨by decide, builderLaws_of_check (b := ⟨"app", [fieldNamedPhrase]⟩) (by decide)
    (List.mem_singleton_self _)⟩

/-- Not every setter of an accepted batch has a type or can be executed. -/
theorem setter_hides_values :
    (⟨"app", [fieldNamedPhrase]⟩ : Batch).check = .ok () ∧ valuesName ∈ fieldNamedPhrase.tokens ∧
      ¬ (builder fieldNamedPhrase).WellTypedCall valuesName 1 ∧
      ((builder fieldNamedPhrase).call valuesName ["x"] (freshStorage fieldNamedPhrase)).isNone := by
  have hcheck : (⟨"app", [fieldNamedPhrase]⟩ : Batch).check = .ok () := by decide
  have hmem : valuesName ∈ fieldNamedPhrase.tokens := by decide
  have hlegal : fieldNamedPhrase.Legal :=
    (Batch.check_eq_ok_iff.mp hcheck).phrases _ (List.mem_singleton_self _)
  refine ⟨hcheck, hmem, ?_, by decide⟩
  intro htyped
  exact (wellTypedCall_iff hlegal hmem).mp htyped rfl

end Phrasebook
