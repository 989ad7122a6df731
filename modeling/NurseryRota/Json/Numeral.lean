import NurseryRota.Decimal.Binary64
import NurseryRota.Json.Lexer
import NurseryRota.Width

/-!
# The value of a numeral

A numeral without point and exponent is an integer while it fits in 64 bits: an unsigned one, or
a signed one if it is negative.  Any other numeral is a double, and so is minus zero.  As many
digits as fit in 64 bits make up the significand; the digits before the point that do not fit
count as zeros and those after it are dropped.
-/

namespace NurseryRota

inductive NumberValue
  | natural (n : Nat)
  | negative (n : Nat)
  | double (negative : Bool) (magnitude : Binary64)
deriving DecidableEq, Repr

namespace Numeral

/-- Adds digits to a number while it stays below a limit, and gives the digits left over. -/
def accumulate (limit : Nat) (n : Nat) : List Char → Nat × List Char
  | [] => (n, [])
  | c :: rest =>
    let next := 10 * n + (c.toNat - '0'.toNat)
    if next < limit then accumulate limit next rest else (n, c :: rest)

def scale (negative : Bool) (significand : Nat) (exponent : Int) :
    Except JsonFault NumberValue :=
  let f := Binary64.ofNat significand
  if 0 ≤ exponent then
    match f.scaleUp exponent.toNat with
    | none => .error .numberOutOfRange
    | some x => .ok (.double negative x)
  else .ok (.double negative (f.scaleDown (-exponent).toNat))

/-- The double of a significand, a power of ten and a written exponent.  An exponent of more
than 31 bits leaves no number, or zero. -/
def withExponent (negative : Bool) (significand : Nat) (shift : Int) :
    Option (Bool × List Char) → Except JsonFault NumberValue
  | none => scale negative significand shift
  | some (down, digits) =>
    match accumulate (capacity 31) 0 digits with
    | (n, []) => scale negative significand (if down then shift - n else shift + n)
    | _ =>
      if significand ≠ 0 && !down then .error .numberOutOfRange
      else .ok (.double negative .zero)

/-- The value of a numeral; a double beyond all doubles is a fault. -/
def value (n : Numeral) : Except JsonFault NumberValue :=
  let (significand, more) := accumulate (capacity 64) 0 n.whole
  if n.fraction = [] && n.exponent = none && more = [] then
    if !n.negative then .ok (.natural significand)
    else if significand = 0 || capacity 63 < significand then
      .ok (.double true (.ofNat significand))
    else .ok (.negative significand)
  else
    let (significand, dropped) := accumulate (capacity 64) significand n.fraction
    withExponent n.negative significand
      (more.length - (n.fraction.length - dropped.length : Nat)) n.exponent

/-- The integer that a numeral denotes, if it is written as one; minus zero is none. -/
def int? (n : Numeral) : Option Int :=
  if n.fraction ≠ [] || n.exponent ≠ none then none
  else
    let magnitude := ofDecimal n.whole
    if !n.negative then some magnitude
    else if magnitude = 0 then none
    else some (-magnitude)

end Numeral

end NurseryRota
