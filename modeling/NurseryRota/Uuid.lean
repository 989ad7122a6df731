import NurseryRota.Width

/-!
# Identifiers

Shifts, members and projects are known by 128-bit identifiers.  An identifier is its value; it
orders as that number, which is the unsigned order of its sixteen big-endian bytes.
-/

namespace NurseryRota

@[ext] structure Uuid where
  toNat : Nat
  toNat_lt : toNat < capacity 128

namespace Uuid

instance : DecidableEq Uuid := fun a b =>
  decidable_of_iff (a.toNat = b.toNat) (Uuid.ext_iff).symm

def ofNat (n : Nat) : Uuid := ⟨n % capacity 128, Nat.mod_lt _ (capacity_pos 128)⟩

def zero : Uuid := ofNat 0

def rank (u : Uuid) : Int := u.toNat

theorem rank_inj {a b : Uuid} : a.rank = b.rank ↔ a = b := by
  rw [Uuid.ext_iff]
  exact Int.ofNat_inj

theorem ofNat_toNat (u : Uuid) : ofNat u.toNat = u :=
  Uuid.ext (Nat.mod_eq_of_lt u.toNat_lt)

end Uuid

abbrev ShiftId := Uuid
abbrev MemberId := Uuid

/-- A project is one rota: the set of members who are counted together. -/
abbrev ProjectId := Uuid

end NurseryRota
