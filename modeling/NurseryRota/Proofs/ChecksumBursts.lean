import Mathlib.Algebra.Group.Nat.Defs
import Mathlib.Logic.Function.Iterate
import NurseryRota.Journal.Checksum
import NurseryRota.Proofs.PayloadExact

/-!
# The checksum tells short bursts apart

A shift of the remainder is linear in exclusive or and loses nothing, since the bit that it takes out
comes back as the highest one.  Up to four bytes enter the remainder as one word and are shifted
through together, so two such words leave different remainders behind, and bytes that follow alike
keep these apart.  Whatever surrounds them, byte strings that differ within four neighbouring bytes
therefore have different checksums.
-/

namespace NurseryRota

namespace Checksum

variable {r s : BitVec 32} {word other : Bytes}

theorem value_lt_of_length_le {count : Nat} (h : word.length ≤ count) :
    Bytes.value word < 256 ^ count := by
  have hpow : 256 ^ word.length ≤ 256 ^ count := Nat.pow_le_pow_right (by decide) h
  exact Nat.lt_of_lt_of_le (Bytes.value_lt word) hpow

theorem shift_xor (r s : BitVec 32) : shift (r ^^^ s) = shift r ^^^ shift s := by
  have hcancel : r >>> 1 ^^^ polynomial ^^^ (s >>> 1 ^^^ polynomial) = r >>> 1 ^^^ s >>> 1 := by
    rw [BitVec.xor_comm (s >>> 1), BitVec.xor_assoc, ← BitVec.xor_assoc polynomial,
      BitVec.xor_self, BitVec.zero_xor]
  unfold shift
  rw [BitVec.getLsbD_xor, BitVec.ushiftRight_xor_distrib]
  cases r.getLsbD 0 with
  | false =>
      cases s.getLsbD 0 with
      | false => rfl
      | true => exact BitVec.xor_assoc _ _ _
  | true =>
      cases s.getLsbD 0 with
      | false =>
          simp only [Bool.xor_false, if_true, Bool.false_eq_true, if_false]
          ac_rfl
      | true => exact hcancel.symm

/-- The highest bit of the shifted remainder is the one that was shifted out. -/
theorem getLsbD_shift (r : BitVec 32) : (shift r).getLsbD 31 = r.getLsbD 0 := by
  -- The shift leaves the highest place empty, and the polynomial has a bit there.
  have hempty : (r >>> 1).getLsbD 31 = false := by simp
  have hfilled : polynomial.getLsbD 31 = true := by decide
  unfold shift
  cases r.getLsbD 0 with
  | false => exact hempty
  | true => rw [if_pos rfl, BitVec.getLsbD_xor, hempty, hfilled, Bool.false_xor]

theorem eq_zero_of_shift (h : shift r = 0#32) : r = 0#32 := by
  have hlow : r.getLsbD 0 = false := by
    rw [← getLsbD_shift, h]
    rfl
  unfold shift at h
  rw [hlow, if_neg Bool.false_ne_true] at h
  apply BitVec.eq_of_getLsbD_eq
  intro i hi
  cases i with
  | zero => simpa using hlow
  | succ i =>
      have hbit := congrArg (fun x : BitVec 32 => x.getLsbD i) h
      simpa [Nat.add_comm] using hbit

theorem shift_injective : Function.Injective shift := by
  intro r s h
  apply BitVec.xor_eq_zero_iff.mp
  apply eq_zero_of_shift
  rw [shift_xor, h, BitVec.xor_self]

theorem shift_ofNat {v : Nat} (hv : 2 * v < 2 ^ 32) :
    shift (BitVec.ofNat 32 (2 * v)) = BitVec.ofNat 32 v := by
  have hlow : (BitVec.ofNat 32 (2 * v)).getLsbD 0 = false := by
    rw [BitVec.getLsbD_ofNat]
    simp
  unfold shift
  rw [hlow, if_neg Bool.false_ne_true]
  apply BitVec.eq_of_toNat_eq
  rw [BitVec.toNat_ushiftRight, BitVec.toNat_ofNat, BitVec.toNat_ofNat, Nat.mod_eq_of_lt hv,
    Nat.mod_eq_of_lt (by omega)]
  omega

theorem repeat_shift (n : Nat) : Nat.repeat shift n = shift^[n] := by
  induction n with
  | zero => rfl
  | succ n ih =>
      funext r
      rw [Function.iterate_succ_apply', ← ih]
      rfl

theorem shift_iterate_xor (n : Nat) (r s : BitVec 32) :
    shift^[n] (r ^^^ s) = shift^[n] r ^^^ shift^[n] s := by
  induction n with
  | zero => rfl
  | succ n ih => simp only [Function.iterate_succ_apply', ih, shift_xor]

theorem shift_iterate_ofNat {n v : Nat} (hv : 2 ^ n * v < 2 ^ 32) :
    shift^[n] (BitVec.ofNat 32 (2 ^ n * v)) = BitVec.ofNat 32 v := by
  induction n with
  | zero => simp
  | succ n ih =>
      have hdouble : 2 ^ (n + 1) * v = 2 * (2 ^ n * v) := by rw [Nat.pow_succ', Nat.mul_assoc]
      rw [hdouble] at hv ⊢
      rw [Function.iterate_succ_apply, shift_ofNat hv, ih (by omega)]

theorem ofNat_add_eq_xor {b : Nat} (hb : b < 256) (v : Nat) :
    BitVec.ofNat 32 (b + 256 * v) = BitVec.ofNat 32 b ^^^ BitVec.ofNat 32 (256 * v) := by
  have hbyte : 256 = 2 ^ 8 := rfl
  apply BitVec.eq_of_getLsbD_eq
  intro i hi
  simp only [BitVec.getLsbD_xor, BitVec.getLsbD_ofNat, hi, decide_true, Bool.true_and]
  rw [hbyte, Nat.add_comm, Nat.testBit_two_pow_mul_add v hb, Nat.testBit_two_pow_mul]
  split
  · next hlow => simp [Nat.not_le.mpr hlow]
  · next hhigh =>
      have hle : 8 ≤ i := Nat.le_of_not_lt hhigh
      have hpow : 2 ^ 8 ≤ 2 ^ i := Nat.pow_le_pow_right (by decide) hle
      have hnone : b.testBit i = false := Nat.testBit_lt_two_pow (Nat.lt_of_lt_of_le hb hpow)
      simp [hle, hnone]

/-- Up to four bytes enter the remainder as one word, which is then shifted through. -/
theorem absorbAll_eq_shift {bytes : Bytes} (hshort : bytes.length ≤ 4) (r : BitVec 32) :
    absorbAll r bytes =
      shift^[8 * bytes.length] (r ^^^ BitVec.ofNat 32 (Bytes.value bytes)) := by
  induction bytes generalizing r with
  | nil => simp [absorbAll, Bytes.value]
  | cons b rest ih =>
      rw [List.length_cons] at hshort
      have hvalue : Bytes.value rest < 256 ^ 3 := value_lt_of_length_le (by omega)
      have hword : 2 ^ 8 * Bytes.value rest < 2 ^ 32 := by omega
      have hlater : BitVec.ofNat 32 (Bytes.value rest) =
          shift^[8] (BitVec.ofNat 32 (256 * Bytes.value rest)) := (shift_iterate_ofNat hword).symm
      have habsorb : absorb r b = shift^[8] (r ^^^ BitVec.ofNat 32 b.toNat) := by
        rw [absorb, repeat_shift]
      calc
        absorbAll r (b :: rest) = absorbAll (absorb r b) rest := rfl
        _ = shift^[8 * rest.length] (absorb r b ^^^ BitVec.ofNat 32 (Bytes.value rest)) :=
          ih (by omega) _
        _ = shift^[8 * rest.length] (shift^[8] (r ^^^ BitVec.ofNat 32 b.toNat ^^^
            BitVec.ofNat 32 (256 * Bytes.value rest))) := by
          rw [hlater, habsorb, shift_iterate_xor 8 (r ^^^ BitVec.ofNat 32 b.toNat)]
        _ = shift^[8 * (rest.length + 1)] (r ^^^ BitVec.ofNat 32 (Bytes.value (b :: rest))) := by
          rw [← Function.iterate_add_apply, BitVec.xor_assoc,
            ← ofNat_add_eq_xor b.toNat_lt, Bytes.value, Nat.mul_succ]

theorem absorb_injective (b : UInt8) : Function.Injective fun r => absorb r b := by
  intro r s h
  simp only [absorb, repeat_shift] at h
  exact (BitVec.xor_left_inj _).mp (shift_injective.iterate 8 h)

theorem absorbAll_injective (bytes : Bytes) : Function.Injective fun r => absorbAll r bytes := by
  induction bytes with
  | nil => exact Function.injective_id
  | cons b rest ih => exact ih.comp (absorb_injective b)

theorem eq_of_absorbAll_eq (hlength : other.length = word.length)
    (hshort : word.length ≤ 4) {r : BitVec 32} (h : absorbAll r other = absorbAll r word) :
    other = word := by
  have hshort' : other.length ≤ 4 := by omega
  have hword : Bytes.value word < 2 ^ 32 := value_lt_of_length_le hshort
  have hother : Bytes.value other < 2 ^ 32 := value_lt_of_length_le hshort'
  rw [absorbAll_eq_shift hshort', absorbAll_eq_shift hshort, hlength] at h
  have hwords := (BitVec.xor_right_inj r).mp (shift_injective.iterate _ h)
  have hvalues := congrArg BitVec.toNat hwords
  rw [BitVec.toNat_ofNat, BitVec.toNat_ofNat, Nat.mod_eq_of_lt hother,
    Nat.mod_eq_of_lt hword] at hvalues
  rw [← Bytes.littleEndian_value other, hvalues, hlength, Bytes.littleEndian_value]

/-- Bytes that differ within four neighbouring ones have different checksums. -/
theorem ofBytes_ne_of_burst (hlength : other.length = word.length)
    (hshort : word.length ≤ 4) (hne : other ≠ word) (front back : Bytes) :
    ofBytes (front ++ other ++ back) ≠ ofBytes (front ++ word ++ back) := by
  intro h
  apply hne
  have hremainders := BitVec.not_inj.mp h
  rw [absorbAll_append, absorbAll_append, absorbAll_append, absorbAll_append] at hremainders
  exact eq_of_absorbAll_eq hlength hshort (absorbAll_injective back hremainders)

end Checksum

end NurseryRota
