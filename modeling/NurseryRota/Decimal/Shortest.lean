import NurseryRota.Decimal.Binary64

/-!
# The shortest decimal of a double

A double is written with the fewest significant digits that are still rounded to it, and of
several such numbers with the nearest.  The text is positional while the decimal exponent lies
between -5 and 15, and then keeps a digit after the point; otherwise it is scientific, with the
sign of the exponent always written.
-/

namespace NurseryRota.Binary64

/-- A decimal number `digits * 10 ^ exponent`. -/
structure Decimal where
  digits : Nat
  exponent : Int
deriving DecidableEq, Repr

def leadingExponent (x : Binary64) : Int :=
  if one ≤ x.units then ((Nat.toDigits 10 (x.units / one)).length : Int) - 1
  else
    match (List.range 400).find? fun k => one ≤ x.units * Nat.pow 10 k with
    | some k => -(k : Int)
    | none => 0

/-- The numerator and the denominator of `10 ^ t` in units. -/
def gridUnit (t : Int) : Nat × Nat :=
  if 0 ≤ t then (Nat.pow 10 t.toNat * one, 1) else (one, Nat.pow 10 (-t).toNat)

/-- The decimal of grid `10 ^ t` is rounded to the double. -/
def reads (x : Binary64) (t : Int) (digits : Nat) : Bool :=
  let (num, den) := gridUnit t
  let value := x.units * den
  let candidate := digits * num
  let step := spacing x.units
  let below := if x.units = Nat.pow 2 x.units.log2 && 1 < step then step / 2 else step
  let even := x.units / step % 2 = 0
  if value ≤ candidate then
    2 * (candidate - value) < step * den || (even && 2 * (candidate - value) = step * den)
  else 2 * (value - candidate) < below * den || (even && 2 * (value - candidate) = below * den)

/-- The nearest decimal of a grid that is rounded to the double: of its two neighbours on the
grid the nearer one, a tie going to the even one. -/
def onGrid (x : Binary64) (t : Int) : Option Decimal :=
  let (num, den) := gridUnit t
  let low := x.units * den / num
  let best := roundQuotient (x.units * den) num
  let other := if best = low then low + 1 else low
  if x.reads t best then some ⟨best, t⟩
  else if x.reads t other then some ⟨other, t⟩
  else none

def shortest (x : Binary64) : Decimal :=
  if x.units = 0 then ⟨0, 0⟩
  else
    ((List.range 18).findSome? fun (n : Nat) => x.onGrid (x.leadingExponent - n)).getD ⟨0, 0⟩

/-- The significant digits without zeros at the end, and the exponent of the first one. -/
def Decimal.parts (d : Decimal) : List Char × Int :=
  let all := Nat.toDigits 10 d.digits
  let significant := (all.reverse.dropWhile (· = '0')).reverse
  (if significant = [] then ['0'] else significant, d.exponent + (all.length - 1 : Nat))

/-- The positional text of digits whose first one has the given exponent. -/
def positional (ds : List Char) (exponent : Int) : List Char :=
  if exponent < 0 then '0' :: '.' :: List.replicate ((-exponent).toNat - 1) '0' ++ ds
  else
    let whole := exponent.toNat + 1
    let padded := ds ++ List.replicate (whole - ds.length) '0'
    let fraction := padded.drop whole
    padded.take whole ++ '.' :: (if fraction = [] then ['0'] else fraction)

/-- The scientific text of digits whose first one has the given exponent. -/
def scientific (ds : List Char) (exponent : Int) : List Char :=
  ds.take 1 ++ (if ds.length ≤ 1 then [] else '.' :: ds.drop 1) ++
    'e' :: (if exponent < 0 then '-' else '+') :: Nat.toDigits 10 exponent.natAbs

def text (negative : Bool) (x : Binary64) : String :=
  let (ds, exponent) := x.shortest.parts
  let unsigned :=
    if -5 ≤ exponent ∧ exponent ≤ 15 then positional ds exponent else scientific ds exponent
  String.ofList (if negative then '-' :: unsigned else unsigned)

end NurseryRota.Binary64
