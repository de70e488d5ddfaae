/-
# Phrasebook.Value -- data as it is read from a file

Files and callers supply data whose types are known only when it is read: scalars, lists, tuples and
mappings, with their entries in order.  `Phrasebook.Shape.Decode` compares such a value with a shape;
the records it builds are values too.

Two keys of a mapping are the same when they are equal as values, numbers being compared by what they
denote: the whole number one, the real number one and the truth value are one key.
-/
import Phrasebook.Calendar
import Phrasebook.Number.Binary64

namespace Phrasebook

/-- A value of dynamic type.  A `record` is what decoding makes of a mapping. -/
inductive Value where
  | null
  | bool (b : Bool)
  | int (n : Int)
  | real (x : Binary64)
  | text (t : Text)
  | list (items : List Value)
  | tuple (items : List Value)
  | map (entries : List (Value × Value))
  | date (d : Date)
  | moment (m : Moment)
  | bytes (b : List UInt8)
  | record (name : Text) (fields : List (Text × Value))
deriving Inhabited, Repr

namespace Value

/-- The name of a value's type in messages. -/
def typeName : Value → Text
  | null => "NoneType"
  | bool _ => "bool"
  | int _ => "int"
  | real _ => "float"
  | text _ => "str"
  | list _ => "list"
  | tuple _ => "tuple"
  | map _ => "dict"
  | date _ => "date"
  | moment _ => "datetime"
  | bytes _ => "bytes"
  | record name _ => name

/-! ## Keys -/

mutual

/-- Whether two values are the same key. -/
def sameKey : Value → Value → Bool
  | null, null => true
  | text s, text t => s = t
  | bool a, bool b => a = b
  | bool a, int n => n = a.toNat
  | bool a, real x => x.eqInt a.toNat
  | int n, bool a => n = a.toNat
  | int m, int n => m = n
  | int n, real x => x.eqInt n
  | real x, bool a => x.eqInt a.toNat
  | real x, int n => x.eqInt n
  | real x, real y => x.same y
  | tuple as, tuple bs => sameKeys as bs
  | date a, date b => a = b
  | moment a, moment b => a.same b
  | bytes a, bytes b => a = b
  | _, _ => false

/-- Whether two lists of values are the same key item by item. -/
def sameKeys : List Value → List Value → Bool
  | [], [] => true
  | a :: as, b :: bs => sameKey a b && sameKeys as bs
  | _, _ => false

end

/-- The entry of a mapping at a key. -/
def lookup (entries : List (Value × Value)) (key : Value) : Option Value :=
  (entries.find? fun entry => entry.1.sameKey key).map Prod.snd

/-- The value of a mapping at a text. -/
def atText (entries : List (Value × Value)) (name : Text) : Option Value := lookup entries (.text name)

/-- Sets a key of a mapping: an old entry keeps its place and its key, a new one comes last. -/
def insert (entries : List (Value × Value)) (key value : Value) : List (Value × Value) :=
  match entries with
  | [] => [(key, value)]
  | (k, v) :: rest =>
    if k.sameKey key then (k, value) :: rest else (k, v) :: insert rest key value

/-- The entries of one mapping, then those of another, the later value of a key winning. -/
def update (entries more : List (Value × Value)) : List (Value × Value) :=
  more.foldl (fun acc entry => insert acc entry.1 entry.2) entries

/-! ## Views -/

/-- The text of a text value. -/
def asText? : Value → Option Text
  | text t => some t
  | _ => none

/-- The items of a list. -/
def asList? : Value → Option (List Value)
  | list items => some items
  | _ => none

/-- The truth of a truth value. -/
def asBool? : Value → Option Bool
  | bool b => some b
  | _ => none

/-- Whether a value is a real number that is no number. -/
def isNan : Value → Bool
  | real .nan => true
  | _ => false

/-- A field of a record; an absent one is null. -/
def field (v : Value) (name : Text) : Value :=
  match v with
  | record _ fields => (fields.lookup name).getD null
  | _ => null

/-- Only a text is the same key as a text. -/
theorem sameKey_text_iff {v : Value} {t : Text} : v.sameKey (.text t) = true ↔ v = .text t := by
  cases v <;> simp [sameKey]

end Value

end Phrasebook
