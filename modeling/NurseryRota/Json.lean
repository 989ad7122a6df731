/-!
# JSON values

A document denotes a value: objects keep their fields in the order of the text, repeated ones
included, and a number keeps its digits.  A string that escapes an unpaired surrogate denotes no
sequence of characters; it may stand where nobody reads it.
-/

namespace NurseryRota

structure Numeral where
  negative : Bool
  whole : List Char
  /-- The digits after the point; empty where there is no point. -/
  fraction : List Char
  exponent : Option (Bool × List Char)
deriving DecidableEq, Repr

abbrev JsonText := Option (List Char)

inductive Json
  | null
  | bool (b : Bool)
  | number (n : Numeral)
  | text (s : JsonText)
  | array (items : List Json)
  | object (fields : List (JsonText × Json))

namespace Json

def ofText (s : String) : Json := text (some s.toList)

def ofInt (n : Int) : Json := number ⟨n < 0, Nat.toDigits 10 n.natAbs, [], none⟩

def ofNat (n : Nat) : Json := ofInt n

def ofFields (fields : List (String × Json)) : Json :=
  object (fields.map fun (k, v) => (some k.toList, v))

end Json

end NurseryRota
