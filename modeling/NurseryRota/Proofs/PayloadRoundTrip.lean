import NurseryRota.Journal.Payload

/-!
# Reading an edit back

What is written for an edit is read back as that edit, whatever bytes follow it.  The readers are
built from smaller ones by sequencing, and so are the proofs: a reader that takes one value from
the front leaves the bytes of the next.
-/

namespace NurseryRota

/-- The reader takes the value from the front of a byte string that begins with its bytes. -/
def Reads {α : Type} (read : ByteReader α) (written : Bytes) (a : α) : Prop :=
  ∀ rest, read (written ++ rest) = some (a, rest)

theorem Uuid.length_toBytes (u : Uuid) : u.toBytes.length = 16 := by
  unfold toBytes
  rw [List.length_map, length_lowDigits]

theorem Uuid.ofBytes?_toBytes (u : Uuid) : ofBytes? u.toBytes = some u := by
  have hbytes : u.toBytes.map UInt8.toNat = lowDigits 256 16 u.toNat := by
    unfold toBytes
    rw [List.map_map]
    conv => rhs; rw [← List.map_id (lowDigits 256 16 u.toNat)]
    apply List.map_congr_left
    intro x hx
    have hlt := lt_of_mem_lowDigits (by decide) 16 u.toNat x hx
    simp only [Function.comp_apply, UInt8.toNat_ofNat', id_eq]
    exact Nat.mod_eq_of_lt hlt
  unfold ofBytes?
  rw [if_pos u.length_toBytes, hbytes, ofDigits_lowDigits]
  have hlt : u.toNat < Nat.pow 256 16 := u.toNat_lt
  rw [Nat.mod_eq_of_lt hlt, ofNat_toNat]

namespace Payload

theorem number?_littleEndian (count : Nat) {n : Nat} (hn : n < Nat.pow 256 count) :
    Reads (Bytes.number? count) (Bytes.littleEndian count n) n := by
  intro rest
  rw [Bytes.number?_append, Nat.mod_eq_of_lt hn]

theorem split?_append {count : Nat} {word : Bytes} (hword : word.length = count) :
    Reads (Bytes.split? count) word word := by
  intro rest
  subst hword
  rw [Bytes.split?_eq, if_pos (by simp), List.take_left, List.drop_left]

theorem uuid?_ofUuid (u : Uuid) : Reads uuid? (ofUuid u) u := by
  intro rest
  unfold uuid? ofUuid
  rw [List.append_assoc, number?_littleEndian 8 (by decide)]
  simp only [Option.bind_eq_bind, Option.bind_some]
  rw [split?_append u.length_toBytes]
  simp only [Option.bind_some]
  rw [Uuid.ofBytes?_toBytes]
  rfl

theorem word?_ofWord (w : Int16) : Reads word? (ofWord w) w := by
  intro rest
  have hw : w.toUInt16.toNat < Nat.pow 256 2 := w.toUInt16.toNat_lt
  unfold word? ofWord
  rw [number?_littleEndian 2 hw]
  simp only [Option.bind_eq_bind, Option.bind_some]
  rw [UInt16.ofNat_toNat, Int16.toInt16_toUInt16]
  rfl

theorem role?_ofRole (r : Role) : Reads role? (ofRole r) r := by
  intro rest
  unfold role? ofRole
  cases r with
  | staff =>
      dsimp only
      rw [number?_littleEndian 4 (by decide)]
      rfl
  | child b =>
      have hindex : (b.index : Nat) < Nat.pow 256 4 :=
        Nat.lt_trans b.index.isLt (by decide)
      dsimp only
      rw [List.append_assoc, number?_littleEndian 4 (by decide)]
      simp only [Option.bind_eq_bind, Option.bind_some]
      rw [number?_littleEndian 4 hindex]
      cases b <;> rfl

theorem enrolment?_ofEnrolment (m : Enrolment) : Reads enrolment? (ofEnrolment m) m := by
  intro rest
  unfold enrolment? ofEnrolment
  rw [List.append_assoc, uuid?_ofUuid]
  simp only [Option.bind_eq_bind, Option.bind_some]
  rw [role?_ofRole]
  rfl

theorem booking?_ofBooking (b : Booking) : Reads booking? (ofBooking b) b := by
  intro rest
  unfold booking? ofBooking
  simp only [List.append_assoc]
  rw [uuid?_ofUuid]
  simp only [Option.bind_eq_bind, Option.bind_some]
  rw [uuid?_ofUuid]
  simp only [Option.bind_some]
  rw [word?_ofWord]
  simp only [Option.bind_some]
  rw [word?_ofWord]
  simp only [Option.bind_some]
  rw [word?_ofWord]
  rfl

theorem edit?_ofEdit (e : Edit) : Reads edit? (ofEdit e) e := by
  intro rest
  unfold edit?
  cases e with
  | memberRegistered id m =>
      unfold ofEdit
      rw [List.append_assoc, List.append_assoc, number?_littleEndian 4 (by decide)]
      simp only [Option.bind_eq_bind, Option.bind_some]
      rw [uuid?_ofUuid]
      simp only [Option.bind_some]
      rw [enrolment?_ofEnrolment]
      rfl
  | memberRemoved id =>
      unfold ofEdit
      rw [List.append_assoc, number?_littleEndian 4 (by decide)]
      simp only [Option.bind_eq_bind, Option.bind_some]
      rw [uuid?_ofUuid]
      rfl
  | shiftAdded b =>
      unfold ofEdit
      rw [List.append_assoc, number?_littleEndian 4 (by decide)]
      simp only [Option.bind_eq_bind, Option.bind_some]
      rw [booking?_ofBooking]
      rfl
  | shiftUpdated b =>
      unfold ofEdit
      rw [List.append_assoc, number?_littleEndian 4 (by decide)]
      simp only [Option.bind_eq_bind, Option.bind_some]
      rw [booking?_ofBooking]
      rfl
  | shiftRemoved id =>
      unfold ofEdit
      rw [List.append_assoc, number?_littleEndian 4 (by decide)]
      simp only [Option.bind_eq_bind, Option.bind_some]
      rw [uuid?_ofUuid]
      rfl

theorem length_ofRole_le (r : Role) : (ofRole r).length ≤ 8 := by
  cases r <;> simp [ofRole, Bytes.length_littleEndian]

theorem length_ofUuid (u : Uuid) : (ofUuid u).length = 24 := by
  unfold ofUuid
  rw [List.length_append, Bytes.length_littleEndian, u.length_toBytes]

/-- No payload of an edit comes near the longest that a frame may announce. -/
theorem length_ofEdit_le (e : Edit) : (ofEdit e).length ≤ 60 := by
  cases e with
  | memberRegistered id m =>
      have hrole := length_ofRole_le m.role
      simp only [ofEdit, ofEnrolment, List.length_append, length_ofUuid,
        Bytes.length_littleEndian]
      omega
  | memberRemoved id => simp [ofEdit, length_ofUuid, Bytes.length_littleEndian]
  | shiftAdded b =>
      simp [ofEdit, ofBooking, ofWord, length_ofUuid, Bytes.length_littleEndian]
  | shiftUpdated b =>
      simp [ofEdit, ofBooking, ofWord, length_ofUuid, Bytes.length_littleEndian]
  | shiftRemoved id => simp [ofEdit, length_ofUuid, Bytes.length_littleEndian]

end Payload

end NurseryRota
