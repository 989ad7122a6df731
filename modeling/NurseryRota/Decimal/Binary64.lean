/-!
# Double precision

A finite number of double precision that is not negative is a multiple of `2 ^ -1074`, and is
kept as that multiple.  A number of 53 bits or fewer is exact; a longer one is rounded to its
leading 53 bits, a half to the even neighbour.  Quotients and products are rounded once from
their exact values.
-/

namespace NurseryRota

/-- A finite double that is not negative, counted in units of `2 ^ -1074`. -/
structure Binary64 where
  units : Nat
deriving DecidableEq, Repr

namespace Binary64

def one : Nat := Nat.pow 2 1074

/-- The quotient rounded to the nearest integer, a half to the even one. -/
def roundQuotient (a b : Nat) : Nat :=
  let q := a / b
  let twice := 2 * (a % b)
  if twice < b || (twice = b && q % 2 = 0) then q else q + 1

/-- The distance, in units, between doubles of the size of `units`. -/
def spacing (units : Nat) : Nat := Nat.pow 2 (units.log2 - 52)

/-- The double nearest to a quotient of units; none if it is beyond all doubles. -/
def ofQuotient (a b : Nat) : Option Binary64 :=
  let step := spacing (a / b)
  let units := roundQuotient a (b * step) * step
  if units < Nat.pow 2 1024 * one then some ⟨units⟩ else none

def zero : Binary64 := ⟨0⟩

/-- The double nearest to a number that is not beyond all doubles. -/
def ofNat (n : Nat) : Binary64 := (ofQuotient (n * one) 1).getD zero

def powerOfTen (k : Nat) : Binary64 := ofNat (Nat.pow 10 k)

def mul (x y : Binary64) : Option Binary64 := ofQuotient (x.units * y.units) one

def div (x y : Binary64) : Binary64 := (ofQuotient (x.units * one) y.units).getD zero

/-- The number divided by `10 ^ k`, in steps of at most `10 ^ 308`. -/
def scaleDown (x : Binary64) (k : Nat) : Binary64 :=
  if k ≤ 308 then x.div (powerOfTen k)
  else if x = zero then zero
  else (x.div (powerOfTen 308)).scaleDown (k - 308)
  termination_by k

/-- The number times `10 ^ k`; none if it is beyond all doubles. -/
def scaleUp (x : Binary64) (k : Nat) : Option Binary64 :=
  if k ≤ 308 then x.mul (powerOfTen k)
  else if x = zero then some zero
  else none

end Binary64

end NurseryRota
