import NurseryRota.Digits
import NurseryRota.Json

/-!
# Writing JSON

A value is written compactly or laid out with two spaces for each level, one item or field to a
line; empty arrays and objects stay on one line in both forms.
-/

namespace NurseryRota

def Numeral.chars (n : Numeral) : List Char :=
  (if n.negative then ['-'] else []) ++ n.whole ++
    (if n.fraction = [] then [] else '.' :: n.fraction) ++
    match n.exponent with
    | none => []
    | some (negative, digits) => 'e' :: (if negative then '-' :: digits else digits)

namespace Json

def escape (c : Char) : List Char :=
  if c = '"' then ['\\', '"']
  else if c = '\\' then ['\\', '\\']
  else if c = '\n' then ['\\', 'n']
  else if c = '\r' then ['\\', 'r']
  else if c = '\t' then ['\\', 't']
  else if c = '\x08' then ['\\', 'b']
  else if c = '\x0c' then ['\\', 'f']
  else if c.toNat < 0x20 then '\\' :: 'u' :: (lowDigits 16 4 c.toNat).map hexDigit
  else [c]

/-- A string with its quotes; one that denotes no characters is written as the escape of an
unpaired surrogate. -/
def quoted : JsonText → List Char
  | some s => '"' :: s.flatMap escape ++ ['"']
  | none => "\"\\ud800\"".toList

def newLine (depth : Nat) : List Char := '\n' :: List.replicate (2 * depth) ' '

mutual

def compact : Json → List Char
  | null => "null".toList
  | bool b => (if b then "true" else "false").toList
  | number n => n.chars
  | text s => quoted s
  | array items => '[' :: compactItems items ++ [']']
  | object fields => '{' :: compactFields fields ++ ['}']

def compactItems : List Json → List Char
  | [] => []
  | [v] => v.compact
  | v :: rest => v.compact ++ ',' :: compactItems rest

def compactFields : List (JsonText × Json) → List Char
  | [] => []
  | [(k, v)] => quoted k ++ ':' :: v.compact
  | (k, v) :: rest => quoted k ++ ':' :: v.compact ++ ',' :: compactFields rest

end

mutual

def pretty (depth : Nat) : Json → List Char
  | null => "null".toList
  | bool b => (if b then "true" else "false").toList
  | number n => n.chars
  | text s => quoted s
  | array [] => ['[', ']']
  | array items => '[' :: prettyItems (depth + 1) items ++ newLine depth ++ [']']
  | object [] => ['{', '}']
  | object fields => '{' :: prettyFields (depth + 1) fields ++ newLine depth ++ ['}']

def prettyItems (depth : Nat) : List Json → List Char
  | [] => []
  | [v] => newLine depth ++ v.pretty depth
  | v :: rest => newLine depth ++ v.pretty depth ++ ',' :: prettyItems depth rest

def prettyFields (depth : Nat) : List (JsonText × Json) → List Char
  | [] => []
  | [(k, v)] => newLine depth ++ quoted k ++ ':' :: ' ' :: v.pretty depth
  | (k, v) :: rest =>
    newLine depth ++ quoted k ++ ':' :: ' ' :: v.pretty depth ++ ',' :: prettyFields depth rest

end

end Json

end NurseryRota
