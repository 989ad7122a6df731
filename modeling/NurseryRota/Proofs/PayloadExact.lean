import Mathlib.Data.List.Induction
import NurseryRota.Proofs.PayloadRoundTrip

/-!
# One form for each edit

A reader takes no other bytes for a value than those that are written for it.  Together with the
round trip this says of a reader what it accepts: a byte string whose front is the form of some
value, which is then the value that is read.
-/

namespace NurseryRota

theorem lowDigits_ofDigits {base : Nat} {ds : List Nat} (hds : ∀ d ∈ ds, d < base) :
    lowDigits base ds.length (ofDigits base ds) = ds := by
  induction ds using List.reverseRecOn with
  | nil => rfl
  | append_singleton ds d ih =>
      have hd : d < base := hds d (by simp)
      have hhigh : (base * ofDigits base ds + d) / base = ofDigits base ds := by
        rw [Nat.mul_add_div (by omega), Nat.div_eq_of_lt hd, Nat.add_zero]
      have hlow : (base * ofDigits base ds + d) % base = d := by
        rw [Nat.mul_add_mod, Nat.mod_eq_of_lt hd]
      have hds' : lowDigits base ds.length (ofDigits base ds) = ds := by
        apply ih
        intro c hc
        exact hds c (by simp [hc])
      rw [List.length_append, List.length_singleton, ofDigits_append_singleton, lowDigits,
        hhigh, hlow, hds']

theorem ofDigits_lt {base : Nat} {ds : List Nat} (hds : ∀ d ∈ ds, d < base) :
    ofDigits base ds < Nat.pow base ds.length := by
  induction ds using List.reverseRecOn with
  | nil => simp [ofDigits]
  | append_singleton ds d ih =>
      have hd : d < base := hds d (by simp)
      have hlt : ofDigits base ds < Nat.pow base ds.length := by
        apply ih
        intro c hc
        exact hds c (by simp [hc])
      have hmul : base * (ofDigits base ds + 1) ≤ base * Nat.pow base ds.length :=
        Nat.mul_le_mul_left base hlt
      rw [Nat.mul_succ, Nat.pow_eq] at hmul
      rw [List.length_append, List.length_singleton, ofDigits_append_singleton, Nat.pow_eq,
        Nat.pow_succ']
      omega

theorem Uuid.toBytes_of_ofBytes? {word : Bytes} {u : Uuid} (h : ofBytes? word = some u) :
    u.toBytes = word := by
  unfold ofBytes? at h
  split at h
  · next hlength =>
      have hdigits : ∀ d ∈ word.map UInt8.toNat, d < 256 := by
        intro d hd
        obtain ⟨b, -, rfl⟩ := List.mem_map.mp hd
        exact b.toNat_lt
      have hsize : (word.map UInt8.toNat).length = 16 := by
        rw [List.length_map, hlength]
      have hlt := ofDigits_lt hdigits
      have hsame := lowDigits_ofDigits hdigits
      rw [hsize] at hlt hsame
      cases h
      have hvalue : (ofNat (ofDigits 256 (word.map UInt8.toNat))).toNat =
          ofDigits 256 (word.map UInt8.toNat) := Nat.mod_eq_of_lt hlt
      unfold toBytes
      rw [hvalue, hsame, List.map_map]
      simp [Function.comp_def]
  · cases h

namespace Bytes

theorem littleEndian_value (bytes : Bytes) : littleEndian bytes.length (value bytes) = bytes := by
  induction bytes with
  | nil => rfl
  | cons b rest ih =>
      have hb := b.toNat_lt
      have hrest : (b.toNat + 256 * value rest) / 256 = value rest := by omega
      have hfirst : UInt8.ofNat (b.toNat + 256 * value rest) = b := by
        apply UInt8.toNat_inj.mp
        rw [UInt8.toNat_ofNat']
        omega
      rw [List.length_cons, value, littleEndian, hrest, hfirst, ih]

variable {count : Nat} {bytes word rest : Bytes}

theorem eq_append_of_split? (h : split? count bytes = some (word, rest)) :
    bytes = word ++ rest ∧ word.length = count := by
  rw [split?_eq] at h
  split at h
  · next hle =>
      simp only [Option.some.injEq, Prod.mk.injEq] at h
      constructor
      · rw [← h.1, ← h.2, List.take_append_drop]
      · rw [← h.1, List.length_take]
        omega
  · cases h

theorem lt_of_number? (h : number? count bytes = some (n, rest)) : n < Nat.pow 256 count := by
  obtain ⟨⟨word, tail⟩, hsplit, heq⟩ := Option.map_eq_some_iff.mp h
  obtain ⟨-, hlength⟩ := eq_append_of_split? hsplit
  simp only [Prod.mk.injEq] at heq
  rw [← heq.1, ← hlength]
  exact value_lt word

end Bytes

theorem Band.eq_index_of_getElem? {i : Nat} {b : Band} (h : all[i]? = some b) : i = b.index := by
  match i with
  | 0 => cases h; rfl
  | 1 => cases h; rfl
  | 2 => cases h; rfl
  | i + 3 => cases h

namespace Payload

/-- Whatever value the reader takes, it takes the bytes that are written for that value. -/
def TakesWritten {α : Type} (read : ByteReader α) (write : α → Bytes) : Prop :=
  ∀ bytes a rest, read bytes = some (a, rest) → bytes = write a ++ rest

/-- The first of two readers in a row takes its value's bytes and leaves the rest to the second. -/
theorem TakesWritten.of_bind {α β : Type} {read : ByteReader α} {write : α → Bytes}
    (hread : TakesWritten read write) {bytes : Bytes} {next : α × Bytes → Option β} {b : β}
    (h : (read bytes >>= next) = some b) :
    ∃ a rest, bytes = write a ++ rest ∧ next (a, rest) = some b := by
  obtain ⟨⟨a, rest⟩, hfirst, hnext⟩ := Option.bind_eq_some_iff.mp h
  exact ⟨a, rest, hread bytes a rest hfirst, hnext⟩

theorem takesWritten_number? (count : Nat) :
    TakesWritten (Bytes.number? count) (Bytes.littleEndian count) := by
  intro bytes n rest h
  obtain ⟨⟨word, tail⟩, hsplit, heq⟩ := Option.map_eq_some_iff.mp h
  obtain ⟨hbytes, rfl⟩ := Bytes.eq_append_of_split? hsplit
  simp only [Prod.mk.injEq] at heq
  rw [← heq.1, ← heq.2, Bytes.littleEndian_value]
  exact hbytes

theorem takesWritten_uuid? : TakesWritten uuid? ofUuid := by
  intro bytes u rest h
  unfold uuid? at h
  obtain ⟨length, tail, hbytes, h⟩ := (takesWritten_number? 8).of_bind h
  obtain ⟨⟨word, remains⟩, hsplit, h⟩ := Option.bind_eq_some_iff.mp h
  obtain ⟨v, hword, h⟩ := Option.bind_eq_some_iff.mp h
  obtain ⟨htail, hlength⟩ := Bytes.eq_append_of_split? hsplit
  cases h
  have hwritten := Uuid.toBytes_of_ofBytes? hword
  have hsixteen : length = 16 := by
    rw [← hlength, ← hwritten, u.length_toBytes]
  rw [hbytes, htail, ofUuid, hwritten, hsixteen, List.append_assoc]

theorem takesWritten_word? : TakesWritten word? ofWord := by
  intro bytes w rest h
  unfold word? at h
  obtain ⟨⟨n, remains⟩, hnumber, h⟩ := Option.bind_eq_some_iff.mp h
  have hbytes := takesWritten_number? 2 bytes n remains hnumber
  have hn : n < Nat.pow 256 2 := Bytes.lt_of_number? hnumber
  cases h
  rw [hbytes, ofWord, UInt16.toUInt16_toInt16, UInt16.toNat_ofNat',
    Nat.mod_eq_of_lt hn]

theorem takesWritten_role? : TakesWritten role? ofRole := by
  intro bytes r rest h
  unfold role? at h
  obtain ⟨kind, tail, hkind, h⟩ := (takesWritten_number? 4).of_bind h
  dsimp only at h
  split at h
  · cases h
    exact hkind
  · obtain ⟨index, remains, hindex, h⟩ := (takesWritten_number? 4).of_bind h
    obtain ⟨band, hband, h⟩ := Option.bind_eq_some_iff.mp h
    cases h
    have hplace : index = band.index := Band.eq_index_of_getElem? hband
    rw [hkind, hindex, ofRole, List.append_assoc, hplace]
  · cases h

theorem takesWritten_enrolment? : TakesWritten enrolment? ofEnrolment := by
  intro bytes m rest h
  unfold enrolment? at h
  obtain ⟨project, tail, hproject, h⟩ := takesWritten_uuid?.of_bind h
  obtain ⟨role, remains, hrole, h⟩ := takesWritten_role?.of_bind h
  cases h
  rw [hproject, hrole, ofEnrolment, List.append_assoc]

theorem takesWritten_booking? : TakesWritten booking? ofBooking := by
  intro bytes b rest h
  unfold booking? at h
  obtain ⟨id, _, hid, h⟩ := takesWritten_uuid?.of_bind h
  obtain ⟨member, _, hmember, h⟩ := takesWritten_uuid?.of_bind h
  obtain ⟨day, _, hday, h⟩ := takesWritten_word?.of_bind h
  obtain ⟨inTime, _, hin, h⟩ := takesWritten_word?.of_bind h
  obtain ⟨outTime, _, hout, h⟩ := takesWritten_word?.of_bind h
  cases h
  simp only [hid, hmember, hday, hin, hout, ofBooking, List.append_assoc]

theorem takesWritten_edit? : TakesWritten edit? ofEdit := by
  intro bytes e rest h
  unfold edit? at h
  obtain ⟨kind, _, hkind, h⟩ := (takesWritten_number? 4).of_bind h
  dsimp only at h
  split at h
  · obtain ⟨id, _, hid, h⟩ := takesWritten_uuid?.of_bind h
    obtain ⟨m, _, hm, h⟩ := takesWritten_enrolment?.of_bind h
    dsimp only at hm
    cases h
    simp only [hkind, hid, hm, ofEdit, List.append_assoc]
  · obtain ⟨id, _, hid, h⟩ := takesWritten_uuid?.of_bind h
    cases h
    simp only [hkind, hid, ofEdit, List.append_assoc]
  · obtain ⟨b, _, hb, h⟩ := takesWritten_booking?.of_bind h
    cases h
    simp only [hkind, hb, ofEdit, List.append_assoc]
  · obtain ⟨b, _, hb, h⟩ := takesWritten_booking?.of_bind h
    cases h
    simp only [hkind, hb, ofEdit, List.append_assoc]
  · obtain ⟨id, _, hid, h⟩ := takesWritten_uuid?.of_bind h
    cases h
    simp only [hkind, hid, ofEdit, List.append_assoc]
  · cases h

/-- An edit is read from the front of a byte string exactly when its bytes stand there. -/
theorem edit?_eq_some_iff {bytes rest : Bytes} {e : Edit} :
    edit? bytes = some (e, rest) ↔ bytes = ofEdit e ++ rest := by
  constructor
  · intro h
    exact takesWritten_edit? bytes e rest h
  · rintro rfl
    exact edit?_ofEdit e rest

end Payload

end NurseryRota
