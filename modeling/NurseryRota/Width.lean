/-!
# Widths

Identifiers, counts and stored words are bounded by the number of values that so many bits can
take.
-/

namespace NurseryRota

def capacity (bits : Nat) : Nat := Nat.pow 2 bits

theorem capacity_pos (bits : Nat) : 0 < capacity bits := Nat.two_pow_pos bits

end NurseryRota
