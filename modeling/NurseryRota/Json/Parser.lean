import NurseryRota.Json.Lexer

/-!
# Reading JSON documents

A document is one value with blanks around it.  Nesting may be of any depth.  The readers of
values, items and fields take a bound on their recursion; `Json.parse` computes one from the
length of the text that no document exceeds.
-/

namespace NurseryRota.Json

mutual

def readValue : Nat → Reader Json
  | 0, _ => .error .expectedValue
  | bound + 1, cs =>
    match skipBlanks cs with
    | [] => .error .endOfValue
    | 'n' :: rest => (skipWord "ull".toList rest).map fun rest => (null, rest)
    | 't' :: rest => (skipWord "rue".toList rest).map fun rest => (bool true, rest)
    | 'f' :: rest => (skipWord "alse".toList rest).map fun rest => (bool false, rest)
    | '"' :: rest => (readJsonText rest).map fun (s, rest) => (text s, rest)
    | '[' :: rest =>
      match skipBlanks rest with
      | ']' :: rest => .ok (array [], rest)
      | [] => .error .endOfList
      | _ => (readItems bound rest).map fun (items, rest) => (array items, rest)
    | '{' :: rest =>
      match skipBlanks rest with
      | '}' :: rest => .ok (object [], rest)
      | [] => .error .endOfObject
      | rest => (readFields bound rest).map fun (fields, rest) => (object fields, rest)
    | c :: rest =>
      if c = '-' || c.isDigit then
        (readNumeral (c :: rest)).map fun (n, rest) => (number n, rest)
      else .error .expectedValue

/-- Reads the items of an array that has at least one, and its closing bracket. -/
def readItems : Nat → Reader (List Json)
  | 0, _ => .error .expectedValue
  | bound + 1, cs => do
    let (v, rest) ← readValue bound cs
    match skipBlanks rest with
    | [] => .error .endOfList
    | ']' :: rest => .ok ([v], rest)
    | ',' :: rest =>
      if (skipBlanks rest).head? = some ']' then .error .trailingComma
      else (readItems bound rest).map fun (vs, rest) => (v :: vs, rest)
    | _ => .error .expectedListEnd

/-- Reads the fields of an object that has at least one, and its closing brace. -/
def readFields : Nat → Reader (List (JsonText × Json))
  | 0, _ => .error .expectedValue
  | bound + 1, cs =>
    match skipBlanks cs with
    | [] => .error .endOfValue
    | '"' :: rest => do
      let (k, rest) ← readJsonText rest
      match skipBlanks rest with
      | [] => .error .endOfObject
      | ':' :: rest =>
        let (v, rest) ← readValue bound rest
        match skipBlanks rest with
        | [] => .error .endOfObject
        | '}' :: rest => .ok ([(k, v)], rest)
        | ',' :: rest =>
          if (skipBlanks rest).head? = some '}' then .error .trailingComma
          else (readFields bound rest).map fun (fs, rest) => ((k, v) :: fs, rest)
        | _ => .error .expectedObjectEnd
      | _ => .error .expectedColon
    | _ => .error .keyNotText

end

def parse (cs : List Char) : Except JsonFault Json := do
  let (v, rest) ← readValue (2 * cs.length + 2) cs
  if skipBlanks rest = [] then return v else .error .trailingCharacters

end NurseryRota.Json
