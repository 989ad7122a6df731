import NurseryRota.Fault
import NurseryRota.Staffing.Rules

/-!
# The staff that a group of children needs

Partial supervision is never enough, so a need is rounded up: within each band under
`Policy.perBand`, once for the whole group under `Policy.pooled`.  The pooled need is an exact
sum of fractions over a common multiple of the ratios; a ratio of zero counts there as one,
while within a band it is a division by zero, however few children there are.
-/

namespace NurseryRota.Rules

/-- Each band's need, rounded up and added. -/
def neededPerBand (rules : Rules) (children : ByBand Nat) : Except Fault Nat :=
  Band.all.foldlM (fun sum b => do
    let need ← Bounded.ceilDiv (children.get b) (rules.get b)
    Bounded.add 32 sum need) 0

def pooledRatio (rules : Rules) (b : Band) : Nat := max (rules.get b) 1

/-- The greatest common divisor: remainders are taken until nothing is left. -/
def commonDivisor (a b : Nat) : Nat :=
  if b = 0 then a else commonDivisor b (a % b)
termination_by b
decreasing_by exact Nat.mod_lt a (by omega)

/-- The least multiple of a number that the ratio of the band divides as well. -/
def raise (rules : Rules) (multiple : Nat) (b : Band) : Except Fault Nat :=
  Bounded.mul 64 (multiple / commonDivisor multiple (rules.pooledRatio b)) (rules.pooledRatio b)

def commonMultiple (rules : Rules) : Except Fault Nat := Band.all.foldlM rules.raise 1

/-- The need of the whole group, counted in parts of which `multiple` make one member of
staff. -/
def pooledParts (rules : Rules) (multiple : Nat) (children : ByBand Nat) : Except Fault Nat :=
  Band.all.foldlM (fun sum b => do
    let parts ← Bounded.mul 64 (children.get b) (multiple / rules.pooledRatio b)
    Bounded.add 64 sum parts) 0

/-- The need of the whole group, rounded up once; the quotient keeps its low 32 bits. -/
def neededPooled (rules : Rules) (children : ByBand Nat) : Except Fault Nat := do
  let multiple ← rules.commonMultiple
  let parts ← rules.pooledParts multiple children
  let need ← Bounded.ceilDiv parts multiple
  return need % capacity 32

def staffNeeded (rules : Rules) (policy : Policy) (children : ByBand Nat) :
    Except Fault Nat :=
  match policy with
  | .perBand => rules.neededPerBand children
  | .pooled => rules.neededPooled children

end NurseryRota.Rules
