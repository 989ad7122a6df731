import NurseryRota.Json.Numeral

/-!
# The shapes of records and choices

A record is written as an object that has each of its fields once, in any order and with others
beside them, or as an array of exactly its fields in order.  A choice is written as an object of
one field, named for the alternative and holding its data; an alternative without data may be
written as its bare name.  A tagged record has a further field that names what it is a record of, the
first one in an array; the rest is kept until the name is known, so all of it must be readable.
`none` stands for a value of another shape.
-/

namespace NurseryRota.Json

def plain? (s : JsonText) : Option String := s.map String.ofList

def text? : Json → Option String
  | text s => plain? s
  | _ => none

def items? : Json → Option (List Json)
  | array items => some items
  | _ => none

def int? : Json → Option Int
  | number n => n.int?
  | _ => none

def valuesOf (name : String) (fields : List (JsonText × Json)) : List Json :=
  (fields.filter fun f => plain? f.1 = some name).map Prod.snd

/-- The value of a field that is there exactly once. -/
def single? (name : String) (fields : List (JsonText × Json)) : Option Json :=
  match valuesOf name fields with
  | [v] => some v
  | _ => none

/-- The values of a record's fields, in the order of the names.  Names of fields must denote
characters, also those of fields that the record does not have. -/
def record? (names : List String) : Json → Option (List Json)
  | object fields =>
    if fields.all fun f => f.1.isSome then names.mapM fun name => single? name fields else none
  | array items => if items.length = names.length then some items else none
  | _ => none

def choice? : Json → Option (String × Option Json)
  | object [(name, v)] => (plain? name).map fun name => (name, some v)
  | text s => (plain? s).map fun name => (name, none)
  | _ => none

def isUnit : Option Json → Bool
  | none => true
  | some null => true
  | some _ => false

/-- In what was kept, an object without fields counts as no data. -/
def isKeptUnit : Option Json → Bool
  | some (object []) => true
  | data => isUnit data

/-- What a tagged record is a record of, and the record without its tag. -/
def tagged? (tag : String) : Json → Option (String × Json)
  | object fields => do
    let name ← (← single? tag fields).text?
    return (name, object (fields.filter fun f => plain? f.1 ≠ some tag))
  | array (name :: items) => name.text?.map fun name => (name, array items)
  | _ => none

mutual

/-- A value can be kept: its strings denote characters, its numerals have values, and its arrays and
objects have at most so many levels. -/
def keepable (levels : Nat) : Json → Bool
  | null => true
  | bool _ => true
  | number n => n.value.isOk
  | text s => s.isSome
  | array items => 0 < levels && keepableItems (levels - 1) items
  | object fields => 0 < levels && keepableFields (levels - 1) fields

def keepableItems (levels : Nat) : List Json → Bool
  | [] => true
  | v :: rest => v.keepable levels && keepableItems levels rest

def keepableFields (levels : Nat) : List (JsonText × Json) → Bool
  | [] => true
  | (k, v) :: rest => k.isSome && v.keepable levels && keepableFields levels rest

end

end NurseryRota.Json
