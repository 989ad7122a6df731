/-!
# Bytes

Byte strings and the fixed-width numbers in them, which are written with the least significant
byte first.
-/

namespace NurseryRota

abbrev Bytes := List UInt8

namespace Bytes

/-- The lowest `count` bytes of a number, the least significant first. -/
def littleEndian : (count n : Nat) → Bytes
  | 0, _ => []
  | count + 1, n => UInt8.ofNat n :: littleEndian count (n / 256)

/-- The number that bytes stand for, the least significant first. -/
def value : Bytes → Nat
  | [] => 0
  | b :: rest => b.toNat + 256 * value rest

/-- The first `count` bytes and the rest, if there are so many. -/
def split? (count : Nat) (bytes : Bytes) : Option (Bytes × Bytes) :=
  let word := bytes.take count
  if word.length = count then some (word, bytes.drop count) else none

def number? (count : Nat) (bytes : Bytes) : Option (Nat × Bytes) :=
  (split? count bytes).map fun (word, rest) => (value word, rest)

def text? (bytes : Bytes) : Option String := String.fromUTF8? ⟨bytes.toArray⟩

def ofText (s : String) : Bytes := s.toUTF8.data.toList

/-- Bytes are a text exactly if they are the ones that it is written as. -/
theorem text?_eq_some_iff {bytes : Bytes} {s : String} : text? bytes = some s ↔ bytes = ofText s := by
  unfold text? String.fromUTF8?
  constructor
  · intro h
    split at h
    · cases h
      rfl
    · cases h
  · rintro rfl
    exact dif_pos s.isValidUTF8

theorem ofText_inj {s t : String} : ofText s = ofText t ↔ s = t := by
  constructor
  · intro h
    have hread := text?_eq_some_iff.mpr h
    rw [text?_eq_some_iff.mpr rfl, Option.some.injEq] at hread
    exact hread
  · rintro rfl
    rfl

theorem length_littleEndian (count n : Nat) : (littleEndian count n).length = count := by
  induction count generalizing n with
  | zero => rfl
  | succ count ih => simp [littleEndian, ih]

theorem value_littleEndian (count n : Nat) :
    value (littleEndian count n) = n % Nat.pow 256 count := by
  induction count generalizing n with
  | zero => simp [littleEndian, value, Nat.mod_one]
  | succ count ih =>
    rw [littleEndian, value, ih, Nat.pow_eq, Nat.pow_eq, Nat.pow_succ', Nat.mod_mul]
    simp [UInt8.toNat_ofNat']

theorem value_lt (bytes : Bytes) : value bytes < Nat.pow 256 bytes.length := by
  induction bytes with
  | nil => simp [value]
  | cons b rest ih =>
    have := b.toNat_lt
    rw [Nat.pow_eq] at ih
    rw [value, List.length_cons, Nat.pow_eq, Nat.pow_succ']
    omega

theorem split?_eq (count : Nat) (bytes : Bytes) :
    split? count bytes =
      if count ≤ bytes.length then some (bytes.take count, bytes.drop count) else none := by
  simp only [split?, List.length_take]
  by_cases h : count ≤ bytes.length
  · rw [if_pos h, if_pos (by omega)]
  · rw [if_neg h, if_neg (by omega)]

theorem number?_append (count n : Nat) (rest : Bytes) :
    number? count (littleEndian count n ++ rest) = some (n % Nat.pow 256 count, rest) := by
  have hlen := length_littleEndian count n
  have htake : (littleEndian count n ++ rest).take count = littleEndian count n := by
    rw [List.take_append_of_le_length (by omega), List.take_of_length_le (by omega)]
  have hdrop : (littleEndian count n ++ rest).drop count = rest := by
    rw [List.drop_append_of_le_length (by omega), List.drop_of_length_le (by omega),
      List.nil_append]
  simp [number?, split?_eq, hlen, htake, hdrop, value_littleEndian]

end Bytes

end NurseryRota
