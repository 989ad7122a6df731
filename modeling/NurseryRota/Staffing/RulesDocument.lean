import NurseryRota.Decimal.Shortest
import NurseryRota.Json.Numeral
import NurseryRota.Staffing.Rules
import NurseryRota.Text.Quoted

/-!
# Ratio rules as a document

A rules document is a record of three unsigned numbers of 32 bits: an object that has every band
once and nothing else, or an array of the three numbers in the order of the bands.  Each number
must be a ratio that a configuration may have.  The text is read from left to right and the
first fault found is the one reported.
-/

namespace NurseryRota

inductive Found
  | null
  | bool (b : Bool)
  | text (s : String)
  | number (n : NumberValue)
  | sequence
  | map

def NumberValue.text : NumberValue → String
  | natural n => "integer \x60" ++ toString n ++ "\x60"
  | negative n => "integer \x60-" ++ toString n ++ "\x60"
  | double minus x => "floating point \x60" ++ x.text minus ++ "\x60"

def Found.message : Found → String
  | null => "null"
  | bool b => "boolean \x60" ++ (if b then "true" else "false") ++ "\x60"
  | text s => "string " ++ Quoted.quote s
  | number n => n.text
  | sequence => "sequence"
  | map => "map"

inductive RulesFault
  | malformed (fault : JsonFault)
  | notRules (found : Found)
  | notRatio (found : Found)
  | ratioTooLarge (found : NumberValue)
  | unknownField (name : String)
  | duplicateField (band : Band)
  | missingField (band : Band)
  | tooShort (length : Nat)
  | outOfRange (cause : RatioOutOfRange)

namespace RulesFault

def rulesName : String := "struct RatioRules"

def bandList : String :=
  ", ".intercalate (Band.all.map fun b => "\x60" ++ b.name ++ "\x60")

def message : RulesFault → String
  | malformed fault => fault.message
  | notRules found => "invalid type: " ++ found.message ++ ", expected " ++ rulesName
  | notRatio found => "invalid type: " ++ found.message ++ ", expected u32"
  | ratioTooLarge found => "invalid value: " ++ found.text ++ ", expected u32"
  | unknownField name =>
    "unknown field \x60" ++ name ++ "\x60, expected one of " ++ bandList
  | duplicateField band => "duplicate field \x60" ++ band.name ++ "\x60"
  | missingField band => "missing field \x60" ++ band.name ++ "\x60"
  | tooShort length =>
    "invalid length " ++ toString length ++ ", expected " ++ rulesName ++ " with 3 elements"
  | outOfRange cause => cause.message

end RulesFault

namespace RulesDocument

open Json

abbrev Reader (α : Type) := List Char → Except RulesFault (α × List Char)

def lift {α : Type} (r : Except JsonFault α) : Except RulesFault α := r.mapError .malformed

def readNumber : Reader NumberValue := fun cs => do
  let (numeral, rest) ← lift (readNumeral cs)
  let n ← lift numeral.value
  return (n, rest)

/-- What a value is that should be something else, told from its beginning. -/
def found (cs : List Char) : Except RulesFault Found :=
  match cs with
  | [] => .error (.malformed .endOfValue)
  | 'n' :: rest => (lift (skipWord "ull".toList rest)).map fun _ => .null
  | 't' :: rest => (lift (skipWord "rue".toList rest)).map fun _ => .bool true
  | 'f' :: rest => (lift (skipWord "alse".toList rest)).map fun _ => .bool false
  | '"' :: rest => (lift (readText rest)).map fun (s, _) => .text (String.ofList s)
  | '[' :: _ => .ok .sequence
  | '{' :: _ => .ok .map
  | c :: _ =>
    if c = '-' || c.isDigit then (readNumber cs).map fun (n, _) => .number n
    else .error (.malformed .expectedValue)

def readRatio : Reader Nat := fun cs => do
  let cs := skipBlanks cs
  match cs with
  | [] => .error (.malformed .endOfValue)
  | c :: _ =>
    if c = '-' || c.isDigit then
      let (n, rest) ← readNumber cs
      match n with
      | .natural k => if k < capacity 32 then return (k, rest) else .error (.ratioTooLarge n)
      | .negative _ => .error (.ratioTooLarge n)
      | .double _ _ => .error (.notRatio (.number n))
    else .error (.notRatio (← found cs))

/-- Reads what stands before an item of an array that has `before` items already. -/
def readItemStart (before : Nat) (cs : List Char) : Except RulesFault (List Char) :=
  match skipBlanks cs with
  | [] => .error (.malformed .endOfList)
  | ']' :: _ => .error (.tooShort before)
  | c :: rest =>
    if before = 0 then .ok (c :: rest)
    else if c = ',' then
      match skipBlanks rest with
      | [] => .error (.malformed .endOfValue)
      | ']' :: _ => .error (.malformed .trailingComma)
      | rest => .ok rest
    else .error (.malformed .expectedListEnd)

def readItem (before : Nat) : Reader Nat := fun cs => do
  readRatio (← readItemStart before cs)

def readItemsEnd (cs : List Char) : Except RulesFault (List Char) :=
  match skipBlanks cs with
  | [] => .error (.malformed .endOfList)
  | ']' :: rest => .ok rest
  | ',' :: rest =>
    if (skipBlanks rest).head? = some ']' then .error (.malformed .trailingComma)
    else .error (.malformed .trailingCharacters)
  | _ => .error (.malformed .trailingCharacters)

def readItems : Reader Rules := fun cs => do
  let (underTwo, cs) ← readItem 0 cs
  let (twoYearOld, cs) ← readItem 1 cs
  let (threePlus, cs) ← readItem 2 cs
  let rest ← readItemsEnd cs
  return (⟨underTwo, twoYearOld, threePlus⟩, rest)

abbrev Seen := ByBand (Option Nat)

def complete (seen : Seen) : Except RulesFault Rules :=
  match seen.underTwo, seen.twoYearOld, seen.threePlus with
  | some u, some t, some p => .ok ⟨u, t, p⟩
  | none, _, _ => .error (.missingField .underTwo)
  | _, none, _ => .error (.missingField .twoYearOld)
  | _, _, none => .error (.missingField .threePlus)

/-- Reads up to the name of the next field, from after its quote; none at the end of the
object, which is taken. -/
def readFieldStart (first : Bool) (cs : List Char) :
    Except RulesFault (Bool × List Char) :=
  match skipBlanks cs with
  | [] => .error (.malformed .endOfObject)
  | '}' :: rest => .ok (false, rest)
  | c :: rest =>
    if first then
      if c = '"' then .ok (true, rest) else .error (.malformed .keyNotText)
    else if c = ',' then
      match skipBlanks rest with
      | [] => .error (.malformed .endOfValue)
      | '"' :: rest => .ok (true, rest)
      | '}' :: _ => .error (.malformed .trailingComma)
      | _ => .error (.malformed .keyNotText)
    else .error (.malformed .expectedObjectEnd)

/-- Reads a field's name, from after its quote, as the band that it names. -/
def readBand (seen : Seen) : Reader Band := fun cs => do
  let (name, rest) ← lift (readText cs)
  match Band.ofName (String.ofList name) with
  | .error e => .error (.unknownField e.name)
  | .ok b => if (seen.get b).isSome then .error (.duplicateField b) else return (b, rest)

def readColon (cs : List Char) : Except RulesFault (List Char) :=
  match skipBlanks cs with
  | [] => .error (.malformed .endOfObject)
  | ':' :: rest => .ok rest
  | _ => .error (.malformed .expectedColon)

/-- Reads the rest of an object of ratios.  An object has at most one field for each band, so a
bound of one more than the bands is never used up. -/
def readFields : Nat → (first : Bool) → Seen → Reader Rules
  | 0, _, _, _ => .error (.malformed .expectedObjectEnd)
  | bound + 1, first, seen, cs => do
    let (another, cs) ← readFieldStart first cs
    if !another then
      return (← complete seen, cs)
    else
      let (band, cs) ← readBand seen cs
      let cs ← readColon cs
      let (ratio, cs) ← readRatio cs
      readFields bound false (seen.set band (some ratio)) cs

def readRules : Reader Rules := fun cs =>
  match skipBlanks cs with
  | '[' :: rest => readItems rest
  | '{' :: rest => readFields (Band.all.length + 1) true ⟨none, none, none⟩ rest
  | rest => do
    let other ← found rest
    .error (.notRules other)

def read (cs : List Char) : Except RulesFault Rules := do
  let (rules, rest) ← readRules cs
  if skipBlanks rest = [] then return rules else .error (.malformed .trailingCharacters)

end RulesDocument

/-- The rules of a document, if every ratio is one that a configuration may have. -/
def Rules.parse (text : String) : Except RulesFault Rules := do
  let rules ← RulesDocument.read text.toList
  match rules.outOfRange? with
  | some cause => .error (.outOfRange cause)
  | none => return rules

end NurseryRota
