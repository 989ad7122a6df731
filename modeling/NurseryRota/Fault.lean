import NurseryRota.Width

/-!
# Faults of bounded arithmetic

Headcounts are 32-bit numbers and the staffing requirement is worked out in 32 and 64 bits.
A step that leaves its range, or divides by zero, does not yield a number: it is a fault, and
the pass that needed the number is given up.  `Bounded` holds the checked operations.
-/

namespace NurseryRota

inductive Fault
  | divideByZero
  | addOverflow
  | subtractOverflow
  | multiplyOverflow
  | windowOutOfDay
deriving DecidableEq, Repr

def Fault.message : Fault → String
  | divideByZero => "attempt to divide by zero"
  | addOverflow => "attempt to add with overflow"
  | subtractOverflow => "attempt to subtract with overflow"
  | multiplyOverflow => "attempt to multiply with overflow"
  | windowOutOfDay => "window bounds outside the day"

namespace Bounded

/-- The sum, if it fits in `bits` bits. -/
def add (bits a b : Nat) : Except Fault Nat :=
  if a + b < capacity bits then .ok (a + b) else .error .addOverflow

def mul (bits a b : Nat) : Except Fault Nat :=
  if a * b < capacity bits then .ok (a * b) else .error .multiplyOverflow

def sub (a b : Nat) : Except Fault Nat :=
  if b ≤ a then .ok (a - b) else .error .subtractOverflow

def ceilDiv (a b : Nat) : Except Fault Nat :=
  if b = 0 then .error .divideByZero else .ok ((a + b - 1) / b)

end Bounded

end NurseryRota
