/-
# Phrasebook.Proofs.Java.Execution -- what a method of a generated class does when it is called

The statements of a generated method are text, so their meaning starts with reading them.  Two forms
are read: `array[index] = value` with names on both sides, and `return this`.  A simple name in a
body stands for the parameter of the method if it has one of that name, and for a field in scope
otherwise.  The scope decides whether a statement has a type, and, with the arguments of the call and
the fields of the object, what it does.

All arguments are strings here, so that an array can only be reached through a field.  Types are
compared by their names.
-/
import Mathlib.Logic.Function.Basic
import Phrasebook.Proofs.Java.Declared
import Phrasebook.Proofs.Text.Numeral

namespace Phrasebook.Java

/-! ## Statements -/

/-- A statement that can be executed. -/
inductive Action where
  | store (array : Text) (index : Nat) (value : Text)
  | returnThis
deriving DecidableEq, Repr

namespace Action

/-- A statement in words of the language. -/
def text : Action → Text
  | store array index value => array ++ "[" ++ Text.ofNat index ++ "] = " ++ value
  | returnThis => "return this"

/-- The names of a statement are identifiers. -/
def Legal : Action → Prop
  | store array _ value => isIdentifier array = true ∧ isIdentifier value = true
  | returnThis => True

/-- The statement that is stored after the name of the array and its bracket. -/
def storeOfText? (array rest : Text) : Option Action :=
  match Text.toNat? (rest.takeWhile CodePoint.isDigit), rest.dropWhile CodePoint.isDigit with
  -- Only a number without leading zeros is decimal.
  | some index, .scalar ']' :: .scalar ' ' :: .scalar '=' :: .scalar ' ' :: value =>
    if Text.ofNat index = rest.takeWhile CodePoint.isDigit ∧ isIdentifier array ∧
        isIdentifier value then
      some (store array index value)
    else none
  | _, _ => none

/-- The statement that a text is, if it has one of the two forms. -/
def ofText? (code : Text) : Option Action :=
  if code = text returnThis then some returnThis
  else match code.dropWhile isIdentifierPart with
    | .scalar '[' :: rest => storeOfText? (code.takeWhile isIdentifierPart) rest
    | _ => none

end Action

/-! ### Statements are read back -/

/-- A beginning all of one class, with something else after it, is cut off exactly. -/
theorem cut_append {p : CodePoint → Bool} {t : Text} {c : CodePoint} (ht : ∀ d ∈ t, p d = true)
    (hc : p c = false) (rest : Text) :
    (t ++ c :: rest).takeWhile p = t ∧ (t ++ c :: rest).dropWhile p = c :: rest := by
  constructor
  · rw [List.takeWhile_append_of_pos ht, List.takeWhile_cons_of_neg (by simp [hc]),
      List.append_nil]
  · rw [List.dropWhile_append_of_pos ht, List.dropWhile_cons_of_neg (by simp [hc])]

/-- A store is read back after its bracket. -/
theorem Action.storeOfText?_text {array value : Text} (index : Nat)
    (harray : isIdentifier array = true) (hvalue : isIdentifier value = true) :
    storeOfText? array (Text.ofNat index ++ "] = " ++ value) = some (.store array index value) := by
  have hcut := cut_append (p := CodePoint.isDigit) (c := .scalar ']') (Text.isDigit_ofNat index)
    (by decide) (.scalar ' ' :: .scalar '=' :: .scalar ' ' :: value)
  have hsplit : Text.ofNat index ++ "] = " ++ value =
      Text.ofNat index ++ .scalar ']' :: .scalar ' ' :: .scalar '=' :: .scalar ' ' :: value := by
    rw [List.append_assoc]
    rfl
  unfold storeOfText?
  rw [hsplit, hcut.1, hcut.2, Text.toNat?_ofNat]
  exact if_pos ⟨rfl, harray, hvalue⟩

/-- Every statement with legal names is read back from its text. -/
theorem Action.ofText?_text {a : Action} (h : a.Legal) : ofText? a.text = some a := by
  cases a with
  | returnThis => rfl
  | store array index value =>
    obtain ⟨harray, hvalue⟩ := h
    have hplain : isPlainName array = true := (Bool.and_eq_true_iff.mp harray).1
    let rest : Text := Text.ofNat index ++ "] = " ++ value
    have hsplit : (store array index value).text = array ++ .scalar '[' :: rest := by
      simp only [rest, text, List.append_assoc]
      rfl
    have hcut := cut_append (p := isIdentifierPart) (c := .scalar '[')
      (isIdentifierPart_of_mem hplain) (by decide) rest
    -- A store has a bracket, and `return this` has none.
    have hne : (store array index value).text ≠ returnThis.text := by
      intro heq
      have hbracket : (.scalar '[' : CodePoint) ∈ returnThis.text := by
        rw [← heq, hsplit]
        exact List.mem_append_right _ (List.mem_cons_self ..)
      exact absurd hbracket (by decide)
    unfold ofText?
    rw [if_neg hne, hsplit, hcut.1, hcut.2]
    exact storeOfText?_text index harray hvalue

/-! ## Names in scope -/

/-- What a simple name stands for. -/
inductive Referent where
  | param (p : Param)
  | field (f : Field)
deriving DecidableEq, Repr

/-- The type of what a name stands for. -/
def Referent.type : Referent → Text
  | param p => p.type
  | field f => f.type

/-- What a method body can see: its own method, the fields of the object and the class. -/
structure Scope where
  method : MethodHead
  fields : List Field
  self : Text

namespace Scope

/-- What a name stands for; a parameter hides a field of its name. -/
def referent? (scope : Scope) (name : Text) : Option Referent :=
  match scope.method.params.find? fun p => p.name = name with
  | some p => some (.param p)
  | none => (scope.fields.find? fun f => f.name = name).map .field

/-- The type of a name. -/
def type? (scope : Scope) (name : Text) : Option Text := (scope.referent? name).map Referent.type

/-- The type of the arrays of a type. -/
def arrayOf (element : Text) : Text := element ++ "[]"

/-- A statement is well-typed if what it stores has the type of the elements, and what it returns
the type that the method returns. -/
def WellTyped (scope : Scope) : Action → Prop
  | .store array _ value =>
    (scope.type? value).isSome ∧ scope.type? array = (scope.type? value).map arrayOf
  | .returnThis => scope.method.returnType = some scope.self

instance (scope : Scope) : DecidablePred scope.WellTyped
  | .store array _ value => inferInstanceAs (Decidable ((scope.type? value).isSome ∧
      scope.type? array = (scope.type? value).map arrayOf))
  | .returnThis => inferInstanceAs (Decidable (scope.method.returnType = some scope.self))

end Scope

/-! ## Execution -/

/-- What a field of an object holds. -/
inductive Datum where
  | null
  | text (t : Text)
  | array (items : List (Option Text))
deriving DecidableEq, Repr

/-- The fields of an object by their names. -/
abbrev Storage := Text → Datum

/-- What a name denotes in a call with the given arguments. -/
def Scope.denote (scope : Scope) (arguments : List Text) (storage : Storage) (name : Text) :
    Option Datum :=
  match scope.referent? name with
  | some (.param p) => (((scope.method.params.map Param.name).zip arguments).lookup p.name).map .text
  | some (.field f) => some (storage f.name)
  | none => none

/-- The storage after a string has been stored into an array, if the name of the array stands for a
field that holds one and the index is in its bounds. -/
def Scope.store (scope : Scope) (storage : Storage) (array : Text) (index : Nat) (t : Text) :
    Option Storage :=
  match scope.referent? array with
  | some (.field f) =>
    match storage f.name with
    | .array items =>
      if index < items.length then
        some (Function.update storage f.name (.array (items.set index (some t))))
      else none
    | _ => none
  | _ => none

/-- Executes the statements of a body, the last of which has to return. -/
def Scope.run (scope : Scope) (arguments : List Text) : List Action → Storage → Option Storage
  | [], _ => none
  | .returnThis :: rest, storage => if rest = [] then some storage else none
  | .store array index value :: rest, storage =>
    match scope.denote arguments storage value with
    | some (.text t) => (scope.store storage array index t).bind (scope.run arguments rest)
    | _ => none

/-! ## Classes -/

/-- A class with its base class. -/
structure Class where
  decl : TypeDecl
  base : TypeDecl

/-- The fields among members. -/
def fieldsOf (members : List Node) : List Field :=
  members.filterMap fun
    | .field f => some f
    | _ => none

/-- The method among members that a signature selects, with its body. -/
def methodOf? (members : List Node) (signature : Signature) : Option (MethodHead × List Node) :=
  members.findSome? fun
    | .method head body =>
      if head.isConstructor = false ∧ head.signature = signature then some (head, body) else none
    | _ => none

/-- The statements of a body, if all of them can be executed. -/
def actions? (body : List Node) : Option (List Action) :=
  body.mapM fun
    | .statement code => Action.ofText? code
    | _ => none

theorem methodOf?_cons_self {head : MethodHead} (h : head.isConstructor = false) (body : List Node)
    (members : List Node) :
    methodOf? (.method head body :: members) head.signature = some (head, body) := by
  rw [methodOf?, List.findSome?_cons]
  simp only [h, true_and, if_true]

theorem methodOf?_cons_ne {head : MethodHead} {signature : Signature}
    (h : head.signature ≠ signature) (body : List Node) (members : List Node) :
    methodOf? (.method head body :: members) signature = methodOf? members signature := by
  rw [methodOf?, List.findSome?_cons]
  simp only [h, and_false, if_false]
  rfl

namespace Class

/-- The scope of a method; private fields of the base class are out of sight. -/
def scope (c : Class) (method : MethodHead) : Scope where
  method := method
  fields := fieldsOf c.decl.members ++
    (fieldsOf c.base.members).filter fun f => !f.modifiers.contains .isPrivate
  self := c.decl.name

/-- The method of the class that a call with strings reaches. -/
def method? (c : Class) (name : Text) (arity : Nat) : Option (MethodHead × List Node) :=
  methodOf? c.decl.members (name, List.replicate arity "String")

/-- A call with strings is well-typed if it reaches a method, and all statements of that are. -/
def WellTypedCall (c : Class) (name : Text) (arity : Nat) : Prop :=
  ∃ head body actions, c.method? name arity = some (head, body) ∧ actions? body = some actions ∧
    ∀ a ∈ actions, (c.scope head).WellTyped a

/-- What an object holds after a call with strings, if the call can be executed. -/
def call (c : Class) (name : Text) (arguments : List Text) (storage : Storage) : Option Storage := do
  let (head, body) ← c.method? name arguments.length
  let actions ← actions? body
  (c.scope head).run arguments actions storage

/-- What an object holds after calls with one string each. -/
def calls (c : Class) (sequence : List (Text × Text)) (storage : Storage) : Option Storage :=
  sequence.foldlM (fun storage (name, argument) => c.call name [argument] storage) storage

end Class

end Phrasebook.Java
