import NurseryRota.Digits
import NurseryRota.Json

/-!
# The words of JSON

Blanks, bare words, strings and numbers are read from the front of a text; a reader hands back
what follows.  A string is read strictly where its characters matter and passed over where they
do not: passing over takes any escape of four hexadecimal digits, while reading refuses an
unpaired surrogate.
-/

namespace NurseryRota

inductive JsonFault
  | endOfValue
  | endOfList
  | endOfObject
  | endOfText
  | expectedValue
  | expectedWord
  | expectedColon
  | expectedListEnd
  | expectedObjectEnd
  | keyNotText
  | trailingComma
  | trailingCharacters
  | controlCharacter
  | invalidEscape
  | unpairedSurrogate
  | unfinishedPair
  | invalidNumber
  | numberOutOfRange
deriving DecidableEq, Repr

def JsonFault.message : JsonFault → String
  | endOfValue => "EOF while parsing a value"
  | endOfList => "EOF while parsing a list"
  | endOfObject => "EOF while parsing an object"
  | endOfText => "EOF while parsing a string"
  | expectedValue => "expected value"
  | expectedWord => "expected ident"
  | expectedColon => "expected \x60:\x60"
  | expectedListEnd => "expected \x60,\x60 or \x60]\x60"
  | expectedObjectEnd => "expected \x60,\x60 or \x60\x7d\x60"
  | keyNotText => "key must be a string"
  | trailingComma => "trailing comma"
  | trailingCharacters => "trailing characters"
  | controlCharacter => "control character (\\u0000-\\u001F) found while parsing a string"
  | invalidEscape => "invalid escape"
  | unpairedSurrogate => "lone leading surrogate in hex escape"
  | unfinishedPair => "unexpected end of hex escape"
  | invalidNumber => "invalid number"
  | numberOutOfRange => "number out of range"

namespace Json

abbrev Reader (α : Type) := List Char → Except JsonFault (α × List Char)

def isBlank (c : Char) : Bool := c = ' ' || c = '\n' || c = '\t' || c = '\r'

def skipBlanks (cs : List Char) : List Char := cs.dropWhile isBlank

def skipWord : List Char → List Char → Except JsonFault (List Char)
  | [], cs => .ok cs
  | _ :: _, [] => .error .endOfValue
  | w :: word, c :: cs => if c = w then skipWord word cs else .error .expectedWord

def shortEscape? (c : Char) : Option Char :=
  match c with
  | '"' => some '"'
  | '\\' => some '\\'
  | '/' => some '/'
  | 'b' => some '\x08'
  | 'f' => some '\x0c'
  | 'n' => some '\n'
  | 'r' => some '\r'
  | 't' => some '\t'
  | _ => none

def codeUnit? (a b c d : Char) : Option Nat :=
  ([a, b, c, d].mapM hexValue?).map (ofDigits 16)

def isLeading (n : Nat) : Bool := 0xD800 ≤ n && n ≤ 0xDBFF

def isTrailing (n : Nat) : Bool := 0xDC00 ≤ n && n ≤ 0xDFFF

def pair (leading trailing : Nat) : Char :=
  Char.ofNat (0x10000 + (leading - 0xD800) * 0x400 + (trailing - 0xDC00))

/-- The fault of a hexadecimal escape with fewer than four characters after it: the text ends
within it if it has fewer than four bytes left. -/
def shortCodeUnit (rest : List Char) : JsonFault :=
  if (String.ofList rest).utf8ByteSize < 4 then .endOfText else .invalidEscape

/-- The fault of a leading surrogate that no hexadecimal escape follows. -/
def brokenPair : List Char → JsonFault
  | [] => .endOfText
  | ['\\'] => .endOfText
  | '\\' :: 'u' :: rest => shortCodeUnit rest
  | _ => .unfinishedPair

def consText (c : Char) (r : Except JsonFault (List Char × List Char)) :
    Except JsonFault (List Char × List Char) :=
  r.map fun (s, rest) => (c :: s, rest)

/-- Reads the characters of a string, from after its opening quote. -/
def readText : Reader (List Char)
  | [] => .error .endOfText
  | '"' :: rest => .ok ([], rest)
  | '\\' :: 'u' :: a :: b :: c :: d :: rest =>
    match codeUnit? a b c d with
    | none => .error .invalidEscape
    | some n =>
      if isTrailing n then .error .unpairedSurrogate
      else if isLeading n then
        match rest with
        | '\\' :: 'u' :: e :: f :: g :: h :: rest =>
          match codeUnit? e f g h with
          | none => .error .invalidEscape
          | some m =>
            if isTrailing m then consText (pair n m) (readText rest)
            else .error .unpairedSurrogate
        | rest => .error (brokenPair rest)
      else consText (Char.ofNat n) (readText rest)
  | '\\' :: 'u' :: rest => .error (shortCodeUnit rest)
  | '\\' :: c :: rest =>
    match shortEscape? c with
    | none => .error .invalidEscape
    | some e => consText e (readText rest)
  | ['\\'] => .error .endOfText
  | c :: rest =>
    if c.toNat < 0x20 then .error .controlCharacter else consText c (readText rest)

def skipText : List Char → Except JsonFault (List Char)
  | [] => .error .endOfText
  | '"' :: rest => .ok rest
  | '\\' :: 'u' :: a :: b :: c :: d :: rest =>
    if (codeUnit? a b c d).isSome then skipText rest else .error .invalidEscape
  | '\\' :: 'u' :: rest => .error (shortCodeUnit rest)
  | '\\' :: c :: rest =>
    if (shortEscape? c).isSome then skipText rest else .error .invalidEscape
  | ['\\'] => .error .endOfText
  | c :: rest => if c.toNat < 0x20 then .error .controlCharacter else skipText rest

def readJsonText : Reader JsonText := fun cs => do
  let rest ← skipText cs
  return ((readText cs).toOption.map Prod.fst, rest)

def readDigits : Reader (List Char) := fun cs =>
  match cs.takeWhile Char.isDigit with
  | [] => .error (if cs = [] then .endOfValue else .invalidNumber)
  | ds => .ok (ds, cs.dropWhile Char.isDigit)

/-- Reads the digits before the point; a zero stands alone. -/
def readWhole : Reader (List Char) := fun cs => do
  let (ds, rest) ← readDigits cs
  if ds.head? = some '0' && ds.length ≠ 1 then .error .invalidNumber
  return (ds, rest)

/-- Reads the point and the digits after it, if there is a point. -/
def readFraction : Reader (List Char)
  | '.' :: rest => readDigits rest
  | cs => .ok ([], cs)

def readExponent : Reader (Option (Bool × List Char)) := fun cs =>
  match cs with
  | [] => .ok (none, [])
  | c :: rest =>
    if c = 'e' || c = 'E' then
      let negative := rest.head? = some '-'
      let unsigned := if negative || rest.head? = some '+' then rest.drop 1 else rest
      (readDigits unsigned).map fun (ds, rest) => (some (negative, ds), rest)
    else .ok (none, cs)

def readNumeral : Reader Numeral := fun cs => do
  let negative := cs.head? = some '-'
  let (whole, rest) ← readWhole (if negative then cs.drop 1 else cs)
  let (fraction, rest) ← readFraction rest
  let (exponent, rest) ← readExponent rest
  return (⟨negative, whole, fraction, exponent⟩, rest)

end Json

end NurseryRota
