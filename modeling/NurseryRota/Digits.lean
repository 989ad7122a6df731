/-!
# Digits

Numbers as lists of digits, the most significant first, and hexadecimal digits as characters.
-/

namespace NurseryRota

def hexDigit (d : Nat) : Char :=
  if d < 10 then Char.ofNat ('0'.toNat + d) else Char.ofNat ('a'.toNat + (d - 10))

def hexValue? (c : Char) : Option Nat :=
  if '0' ≤ c ∧ c ≤ '9' then some (c.toNat - '0'.toNat)
  else if 'a' ≤ c ∧ c ≤ 'f' then some (c.toNat - 'a'.toNat + 10)
  else if 'A' ≤ c ∧ c ≤ 'F' then some (c.toNat - 'A'.toNat + 10)
  else none

def lowDigits (base : Nat) : (count n : Nat) → List Nat
  | 0, _ => []
  | count + 1, n => lowDigits base count (n / base) ++ [n % base]

def ofDigits (base : Nat) (digits : List Nat) : Nat :=
  digits.foldl (fun n d => base * n + d) 0

def ofDecimal (digits : List Char) : Nat := ofDigits 10 (digits.map fun c => c.toNat - '0'.toNat)

theorem length_lowDigits (base count n : Nat) : (lowDigits base count n).length = count := by
  induction count generalizing n with
  | zero => rfl
  | succ count ih => simp [lowDigits, ih]

theorem lt_of_mem_lowDigits {base : Nat} (hbase : 0 < base) (count n : Nat) :
    ∀ x ∈ lowDigits base count n, x < base := by
  induction count generalizing n with
  | zero => simp [lowDigits]
  | succ count ih =>
    intro x hx
    rw [lowDigits, List.mem_append, List.mem_singleton] at hx
    rcases hx with hx | rfl
    · exact ih (n / base) x hx
    · exact Nat.mod_lt n hbase

theorem ofDigits_append_singleton (base : Nat) (ds : List Nat) (d : Nat) :
    ofDigits base (ds ++ [d]) = base * ofDigits base ds + d := by
  simp [ofDigits]

theorem ofDigits_lowDigits (base count n : Nat) :
    ofDigits base (lowDigits base count n) = n % Nat.pow base count := by
  induction count generalizing n with
  | zero => simp [lowDigits, ofDigits, Nat.mod_one]
  | succ count ih =>
    rw [lowDigits, ofDigits_append_singleton, ih, Nat.pow_eq, Nat.pow_eq, Nat.pow_succ',
      Nat.mod_mul]
    omega

theorem ofDecimal_eq_ofDigitChars (digits : List Char) :
    ofDecimal digits = Nat.ofDigitChars 10 digits 0 := by
  rw [Nat.ofDigitChars_eq_foldl, ofDecimal, ofDigits, List.foldl_map]

theorem hexValue?_hexDigit {d : Nat} (h : d < 16) : hexValue? (hexDigit d) = some d := by
  have all : ∀ d, d < 16 → hexValue? (hexDigit d) = some d := by decide
  exact all d h

end NurseryRota
