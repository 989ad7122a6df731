import NurseryRota.Digits
import NurseryRota.Uuid

/-!
# Identifiers as text and bytes

An identifier is written as 32 lower-case hexadecimal digits in groups of 8, 4, 4, 4 and 12
with hyphens between.  Four spellings are read, with letters of either case: that one, the
digits without hyphens, and the hyphenated form in braces or after `urn:uuid:`.
-/

namespace NurseryRota.Uuid

def hexDigits (u : Uuid) : List Char := (lowDigits 16 32 u.toNat).map hexDigit

/-- The hyphenated form, as it is written everywhere. -/
def chars (u : Uuid) : List Char :=
  let ds := u.hexDigits
  ds.take 8 ++ '-' :: (ds.drop 8).take 4 ++ '-' :: (ds.drop 12).take 4 ++
    '-' :: (ds.drop 16).take 4 ++ '-' :: ds.drop 20

def text (u : Uuid) : String := String.ofList u.chars

def ofHexDigits? (cs : List Char) : Option Uuid :=
  if cs.length = 32 then (cs.mapM hexValue?).map fun ds => ofNat (ofDigits 16 ds) else none

/-- Reads the hyphenated form; hyphens stand at the places 8, 13, 18 and 23 and nowhere else. -/
def ofHyphenated? (cs : List Char) : Option Uuid :=
  if cs.length = 36 ∧ [8, 13, 18, 23].all (fun i => cs[i]? = some '-') then
    ofHexDigits? (cs.take 8 ++ (cs.drop 9).take 4 ++ (cs.drop 14).take 4 ++
      (cs.drop 19).take 4 ++ cs.drop 24)
  else none

def ofChars? (cs : List Char) : Option Uuid :=
  match cs.length with
  | 32 => ofHexDigits? cs
  | 36 => ofHyphenated? cs
  | 38 =>
    if cs.head? = some '{' ∧ cs.getLast? = some '}' then ofHyphenated? (cs.drop 1).dropLast
    else none
  | 45 =>
    if (cs.take 9).map Char.toLower = "urn:uuid:".toList then ofHyphenated? (cs.drop 9) else none
  | _ => none

def ofText? (s : String) : Option Uuid := ofChars? s.toList

def toBytes (u : Uuid) : List UInt8 := (lowDigits 256 16 u.toNat).map UInt8.ofNat

/-- The identifier of sixteen bytes; shorter and longer lists denote none. -/
def ofBytes? (bytes : List UInt8) : Option Uuid :=
  if bytes.length = 16 then some (ofNat (ofDigits 256 (bytes.map UInt8.toNat))) else none

end NurseryRota.Uuid
