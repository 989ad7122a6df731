/-!
# Blank characters

The characters that Unicode counts as white space.  Numbers in variables may have them on either
side, and a line of them alone counts as empty.
-/

namespace NurseryRota.Blank

def ranges : List (Nat × Nat) :=
  [(0x09, 0x0D), (0x20, 0x20), (0x85, 0x85), (0xA0, 0xA0), (0x1680, 0x1680), (0x2000, 0x200A),
    (0x2028, 0x2029), (0x202F, 0x202F), (0x205F, 0x205F), (0x3000, 0x3000)]

def contains (c : Char) : Bool := ranges.any fun r => r.1 ≤ c.toNat && c.toNat ≤ r.2

def trim (cs : List Char) : List Char :=
  ((cs.dropWhile contains).reverse.dropWhile contains).reverse

def isBlank (cs : List Char) : Bool := cs.all contains

end NurseryRota.Blank
