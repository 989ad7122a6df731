import NurseryRota.Text.Unprintable

/-!
# Quoted text

Messages quote a foreign text so that a reader sees every character of it: double quotes and
backslashes are escaped, four common controls have escapes of their own, and any other
unprintable character is shown by its code point.
-/

namespace NurseryRota.Quoted

def codePoint (c : Char) : List Char :=
  '\\' :: 'u' :: '{' :: Nat.toDigits 16 c.toNat ++ ['}']

def shown (c : Char) : List Char :=
  if c = '\x00' then ['\\', '0']
  else if c = '\t' then ['\\', 't']
  else if c = '\r' then ['\\', 'r']
  else if c = '\n' then ['\\', 'n']
  else if c = '\\' || c = '"' then ['\\', c]
  else if Unprintable.contains c then codePoint c
  else [c]

def quote (s : String) : String := String.ofList ('"' :: s.toList.flatMap shown ++ ['"'])

end NurseryRota.Quoted
