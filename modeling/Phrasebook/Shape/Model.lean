/-
# Phrasebook.Shape.Model -- models, which report all faults at once

A model reads a mapping field by field.  It ignores the keys it does not know, accepts a field under
its alias as well as under its name, and collects the faults of all fields, each with the place where
it is.  A field with an alias is reported under the alias.
-/
import Phrasebook.Text.Encoding
import Phrasebook.Value.Spelling

namespace Phrasebook

/-! ## Models -/

mutual

/-- What a field of a model holds. -/
inductive ModelType where
  | text
  | int
  | optional (t : ModelType)
  | listOf (t : ModelType)
  | mapOf (key value : ModelType)
  | model (m : Model)

/-- A field of a model. -/
structure ModelField where
  name : Text
  type : ModelType
  alternative : Option Text := none
  default : Option Value := none

/-- A named list of fields. -/
structure Model where
  name : Text
  fields : List ModelField

end

/-- The name under which a field is reported. -/
def ModelField.reported (f : ModelField) : Text := f.alternative.getD f.name

/-- The value given for a field, the alias being asked first. -/
def ModelField.given? (f : ModelField) (entries : List (Value × Value)) : Option Value :=
  match f.alternative with
  | none => Value.atText entries f.name
  | some alternative => (Value.atText entries alternative).or (Value.atText entries f.name)

/-! ## Faults -/

/-- The sorts of faults a model reports. -/
inductive ModelFlaw where
  | missing
  | notText
  | notInt
  | unreadableInt
  | fractionalInt
  | infiniteInt
  | hugeInt
  | notList
  | notMap
  | notModel
deriving DecidableEq, Repr

/-- The name of a sort of fault. -/
def ModelFlaw.name : ModelFlaw → Text
  | .missing => "missing"
  | .notText => "string_type"
  | .notInt => "int_type"
  | .unreadableInt => "int_parsing"
  | .fractionalInt => "int_from_float"
  | .infiniteInt => "finite_number"
  | .hugeInt => "int_parsing_size"
  | .notList => "list_type"
  | .notMap => "dict_type"
  | .notModel => "model_type"

/-- A fault and its place. -/
structure ModelFault where
  place : List Text
  flaw : ModelFlaw
deriving DecidableEq, Repr

/-- A value, or all the faults that kept it from being read. -/
abbrev Read (α : Type) := Except (List ModelFault) α

namespace Read

/-- Both values, or the faults of both in order. -/
def both {α β γ : Type} (f : α → β → γ) : Read α → Read β → Read γ
  | .ok a, .ok b => .ok (f a b)
  | .error e, .ok _ => .error e
  | .ok _, .error e => .error e
  | .error e, .error e' => .error (e ++ e')

/-- All values of a list, or the faults of all its items in order. -/
def each {α β : Type} (f : Nat → α → Read β) : Nat → List α → Read (List β)
  | _, [] => .ok []
  | i, a :: as => both List.cons (f i a) (each f (i + 1) as)

/-- A single fault. -/
def fail {α : Type} (place : List Text) (flaw : ModelFlaw) : Read α := .error [⟨place, flaw⟩]

end Read

/-! ## Reading -/

/-- The magnitude that a real number must not reach to count as an integer. -/
def intLimit : Nat := 9223372036854775808

/-- Reads an integer; a truth value and a real number without fraction count as integers. -/
def readInt (place : List Text) : Value → Read Value
  | .int n => .ok (.int n)
  | .bool b => .ok (.int b.toNat)
  | .real x =>
    match x with
    | .finite negative mantissa exponent =>
      if x.isWhole then
        let (num, den) := Binary64.magnitude mantissa exponent
        let n : Int := (num / den : Nat)
        if intLimit ≤ n then Read.fail place .hugeInt
        else .ok (.int (if negative then -n else n))
      else Read.fail place .fractionalInt
    | _ => Read.fail place .infiniteInt
  | .text _ => Read.fail place .unreadableInt
  | _ => Read.fail place .notInt

/-- The step of a place that stands for a key of a mapping.  A truth value counts as a number. -/
def placeOfKey : Value → Text
  | .text t => t.replaced
  | .bool b => Text.ofNat b.toNat
  | key => key.literal

mutual

/-- Reads a value of a given type at a place. -/
def ModelType.read : ModelType → List Text → Value → Read Value
  | .text, place, v =>
    match v with
    | .text t => .ok (.text t)
    | _ => Read.fail place .notText
  | .int, place, v => readInt place v
  | .optional t, place, v =>
    match v with
    | .null => .ok .null
    | v => t.read place v
  | .listOf t, place, v =>
    match v with
    | .list items | .tuple items =>
      (Read.each (fun i item => t.read (place ++ [Text.ofNat i]) item) 0 items).map .list
    | _ => Read.fail place .notList
  | .mapOf k t, place, v =>
    match v with
    | .map entries =>
      (Read.each (fun _ (key, value) =>
        let at_ := place ++ [placeOfKey key]
        Read.both Prod.mk (k.read (at_ ++ [("[key]" : Text)]) key) (t.read at_ value))
        0 entries).map .map
    | _ => Read.fail place .notMap
  | .model m, place, v => m.readAt place v

/-- Reads the fields of a model from the entries of a mapping. -/
def readFields (place : List Text) (entries : List (Value × Value)) :
    List ModelField → Read (List (Text × Value))
  | [] => .ok []
  | ⟨name, type, alternative, default⟩ :: fields =>
    let f : ModelField := ⟨name, type, alternative, default⟩
    let read : Read Value := match f.given? entries with
      | some v => type.read (place ++ [f.reported]) v
      | none => match default with
        | some v => .ok v
        | none => Read.fail (place ++ [f.reported]) .missing
    Read.both (fun v rest => (name, v) :: rest) read (readFields place entries fields)

/-- Reads a model at a place. -/
def Model.readAt : Model → List Text → Value → Read Value
  | ⟨name, fields⟩, place, v =>
    match v with
    | .map entries => (readFields place entries fields).map (.record name)
    | .record other given =>
      if other = name then .ok (.record other given) else Read.fail place .notModel
    | _ => Read.fail place .notModel

end

/-- Reads a whole mapping as a model. -/
def Model.read (m : Model) (entries : List (Value × Value)) : Read Value :=
  (readFields [] entries m.fields).map (.record m.name)

end Phrasebook
