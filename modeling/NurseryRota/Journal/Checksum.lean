import NurseryRota.Bytes

/-!
# The checksum of a frame

The 32-bit cyclic redundancy check of IEEE 802.3: bits enter with the least significant first,
the remainder starts with all bits set and is complemented at the end.
-/

namespace NurseryRota.Checksum

/-- The generator polynomial, with the coefficients in reversed order. -/
def polynomial : BitVec 32 := 0xEDB88320#32

def shift (r : BitVec 32) : BitVec 32 :=
  if r.getLsbD 0 then (r >>> 1) ^^^ polynomial else r >>> 1

def absorb (r : BitVec 32) (b : UInt8) : BitVec 32 :=
  Nat.repeat shift 8 (r ^^^ BitVec.ofNat 32 b.toNat)

def absorbAll (r : BitVec 32) (bytes : Bytes) : BitVec 32 := bytes.foldl absorb r

def ofBytes (bytes : Bytes) : BitVec 32 := ~~~ absorbAll (BitVec.allOnes 32) bytes

theorem absorbAll_append (r : BitVec 32) (xs ys : Bytes) :
    absorbAll r (xs ++ ys) = absorbAll (absorbAll r xs) ys :=
  List.foldl_append

end NurseryRota.Checksum
