import NurseryRota.Proofs.ChecksumBursts
import NurseryRota.Proofs.IntactPrefix

/-!
# Damage within a frame is found

Bytes may change behind the journal's back.  As long as the changes stay within four neighbouring
bytes of one payload, or within one checksum, payload and checksum of that frame no longer belong
together.  The length in front of them is what it was, so recovery comes to this frame as before,
reads the ones in front of it and stops there.
-/

namespace NurseryRota

namespace Bytes

/-- As many bytes, but not the same ones: those that were altered stand between two places. -/
structure AlteredWithin (lo hi : Nat) (bytes altered : Bytes) : Prop where
  length_eq : altered.length = bytes.length
  ne : altered ≠ bytes
  place : ∀ k, altered[k]? ≠ bytes[k]? → lo ≤ k ∧ k < hi

theorem alteredWithin_iff {lo hi : Nat} {bytes altered : Bytes} :
    AlteredWithin lo hi bytes altered ↔ altered.length = bytes.length ∧ altered ≠ bytes ∧
      ∀ k < bytes.length, altered[k]? ≠ bytes[k]? → lo ≤ k ∧ k < hi := by
  constructor
  · intro h
    exact ⟨h.length_eq, h.ne, fun k _ => h.place k⟩
  · rintro ⟨hlength, hne, hplace⟩
    refine ⟨hlength, hne, ?_⟩
    intro k hk
    by_cases hlt : k < bytes.length
    · exact hplace k hlt hk
    · rw [List.getElem?_eq_none (by omega), List.getElem?_eq_none (by omega)] at hk
      exact absurd rfl hk

instance (lo hi : Nat) (bytes altered : Bytes) : Decidable (AlteredWithin lo hi bytes altered) :=
  decidable_of_iff _ alteredWithin_iff.symm

variable {front word back altered : Bytes} {lo hi : Nat}

theorem AlteredWithin.exists_word (hlo : front.length = lo) (hhi : front.length + word.length = hi)
    (h : AlteredWithin lo hi (front ++ word ++ back) altered) :
    ∃ other, other.length = word.length ∧ other ≠ word ∧ altered = front ++ other ++ back := by
  have hlength := h.length_eq
  rw [List.length_append, List.length_append] at hlength
  have hsame : ∀ k, ¬ (lo ≤ k ∧ k < hi) → altered[k]? = (front ++ word ++ back)[k]? := by
    intro k hk
    by_contra hne
    exact hk (h.place k hne)
  have hfront : altered.take lo = front := by
    apply List.ext_getElem?
    intro k
    rw [List.getElem?_take]
    split
    · rw [hsame k (by omega), List.append_assoc, List.getElem?_append_left (by omega)]
    · rw [List.getElem?_eq_none (by omega)]
  have hback : altered.drop hi = back := by
    apply List.ext_getElem?
    intro k
    have hpast : (front ++ word).length ≤ hi + k := by rw [List.length_append]; omega
    rw [List.getElem?_drop, hsame (hi + k) (by omega), List.getElem?_append_right hpast,
      List.length_append, hhi, Nat.add_sub_cancel_left]
  have hjoined : altered = front ++ (altered.drop lo).take word.length ++ back := by
    calc
      altered = altered.take lo ++ ((altered.drop lo).take word.length ++
          (altered.drop lo).drop word.length) := by
        rw [List.take_append_drop, List.take_append_drop]
      _ = front ++ (altered.drop lo).take word.length ++ back := by
        rw [List.drop_drop, ← hlo, hhi, hback, hlo, hfront, List.append_assoc]
  refine ⟨(altered.drop lo).take word.length, ?_, ?_, hjoined⟩
  · rw [List.length_take, List.length_drop]
    omega
  · intro hword
    rw [hword] at hjoined
    exact h.ne hjoined

/-- A word within a part of the bytes, of which the rest is as it was. -/
theorem AlteredWithin.exists_word_within {part : Bytes} {count : Nat}
    (h : AlteredWithin lo (lo + count) (front ++ part ++ back) altered) (hlo : front.length ≤ lo)
    (hhi : lo + count ≤ front.length + part.length) :
    ∃ before word after other, part = before ++ word ++ after ∧ word.length = count ∧
      other.length = word.length ∧ other ≠ word ∧
      altered = front ++ (before ++ other ++ after) ++ back := by
  let tail := part.drop (lo - front.length)
  have htail : tail.length = part.length - (lo - front.length) := List.length_drop
  have hbefore : (front ++ part.take (lo - front.length)).length = lo := by
    rw [List.length_append, List.length_take]
    omega
  have hword : (tail.take count).length = count := by
    rw [List.length_take]
    omega
  have hpart : part = part.take (lo - front.length) ++ tail.take count ++ tail.drop count := by
    rw [List.append_assoc, List.take_append_drop, List.take_append_drop]
  have hsplit : front ++ part ++ back =
      front ++ part.take (lo - front.length) ++ tail.take count ++ (tail.drop count ++ back) := by
    conv_lhs => rw [hpart]
    simp only [List.append_assoc]
  rw [hsplit] at h
  obtain ⟨other, hlength, hne, haltered⟩ := h.exists_word hbefore (by omega)
  refine ⟨_, _, _, other, hpart, hword, hlength, hne, ?_⟩
  simpa only [List.append_assoc] using haltered

end Bytes

namespace Frame

/-- The bytes of the checksum that the frame of an edit ends with. -/
def sumBytes (e : Edit) : Bytes := Bytes.littleEndian 4 (Checksum.ofBytes (Payload.ofEdit e)).toNat

theorem value_sumBytes (e : Edit) :
    Bytes.value (sumBytes e) = (Checksum.ofBytes (Payload.ofEdit e)).toNat := by
  unfold sumBytes
  rw [Bytes.value_littleEndian]
  exact Nat.mod_eq_of_lt (Checksum.ofBytes (Payload.ofEdit e)).isLt

/-- A frame whose checksum is not that of its payload is not read, whatever follows it. -/
theorem first_of_wrong_sum {payload sum : Bytes} (hmax : payload.length ≤ maxPayload)
    (hsum : sum.length = 4) (hwrong : Bytes.value sum ≠ (Checksum.ofBytes payload).toNat)
    (rest : Bytes) :
    first (Bytes.littleEndian 4 payload.length ++ payload ++ sum ++ rest) = .error .checksum := by
  have hlength : payload.length < Nat.pow 256 4 := Nat.lt_of_le_of_lt hmax (by decide)
  have hnumber : Bytes.number? 4 (sum ++ rest) = some (Bytes.value sum, rest) := by
    unfold Bytes.number?
    rw [Payload.split?_append hsum]
    rfl
  rw [List.append_assoc, List.append_assoc]
  unfold first
  rw [Payload.number?_littleEndian 4 hlength]
  dsimp only
  rw [if_neg (Nat.not_lt.mpr hmax), Payload.split?_append rfl]
  dsimp only
  rw [hnumber]
  dsimp only
  rw [if_pos hwrong]

end Frame

namespace Recovery

variable {es : List Edit} {i : Nat} {altered payload sum : Bytes}

/-- Recovery stops before such a frame. -/
theorem ofBytes_of_wrong_sum (es : List Edit) (hmax : payload.length ≤ maxPayload)
    (hsum : sum.length = 4) (hwrong : Bytes.value sum ≠ (Checksum.ofBytes payload).toNat)
    (rest : Bytes) :
    ofBytes (Frame.ofEdits es ++
        (Bytes.littleEndian 4 payload.length ++ payload ++ sum ++ rest)) =
      ⟨es, (Frame.ofEdits es).length, some .checksum⟩ := by
  have hne : Bytes.littleEndian 4 payload.length ++ payload ++ sum ++ rest ≠ [] := by
    apply List.ne_nil_of_length_pos
    simp only [List.length_append]
    omega
  have hstop := ofBytes_of_error hne (Frame.first_of_wrong_sum hmax hsum hwrong rest)
  rw [(Intact.ofEdits es).ofBytes_append, hstop, List.append_nil, Nat.add_zero]

theorem ofEdits_eq_of_lt (hi : i < es.length) :
    Frame.ofEdits es = Frame.ofEdits (es.take i) ++
      (Bytes.littleEndian 4 (Payload.ofEdit es[i]).length ++ Payload.ofEdit es[i] ++
        Frame.sumBytes es[i] ++ Frame.ofEdits (es.drop (i + 1))) := by
  have hframe : Bytes.littleEndian 4 (Payload.ofEdit es[i]).length ++ Payload.ofEdit es[i] ++
      Frame.sumBytes es[i] = Frame.ofEdit es[i] := rfl
  rw [hframe, ← Frame.ofEdits_cons, ← Frame.ofEdits_append, List.getElem_cons_drop,
    List.take_append_drop]

/-- Altered within four neighbouring bytes, a payload no longer has the checksum behind it. -/
theorem ofBytes_altered_payload (es : List Edit) {e : Edit} {front word other back : Bytes}
    (hpayload : Payload.ofEdit e = front ++ word ++ back) (hlength : other.length = word.length)
    (hshort : word.length ≤ 4) (hne : other ≠ word) (rest : Bytes) :
    ofBytes (Frame.ofEdits es ++ (Bytes.littleEndian 4 (Payload.ofEdit e).length ++
        (front ++ other ++ back) ++ Frame.sumBytes e ++ rest)) =
      ⟨es, (Frame.ofEdits es).length, some .checksum⟩ := by
  have hsame : (Payload.ofEdit e).length = (front ++ other ++ back).length := by
    rw [hpayload]
    simp only [List.length_append, hlength]
  have hmax : (front ++ other ++ back).length ≤ maxPayload := by
    rw [← hsame]
    exact Frame.length_payload_le_max e
  have hwrong : Bytes.value (Frame.sumBytes e) ≠
      (Checksum.ofBytes (front ++ other ++ back)).toNat := by
    rw [Frame.value_sumBytes, hpayload]
    intro hsums
    exact Checksum.ofBytes_ne_of_burst hlength hshort hne front back
      (BitVec.eq_of_toNat_eq hsums.symm)
  rw [hsame]
  exact ofBytes_of_wrong_sum es hmax (Bytes.length_littleEndian 4 _) hwrong rest

theorem ofBytes_altered_sum (es : List Edit) {e : Edit} {other : Bytes}
    (hlength : other.length = 4) (hne : other ≠ Frame.sumBytes e) (rest : Bytes) :
    ofBytes (Frame.ofEdits es ++ (Bytes.littleEndian 4 (Payload.ofEdit e).length ++
        Payload.ofEdit e ++ other ++ rest)) =
      ⟨es, (Frame.ofEdits es).length, some .checksum⟩ := by
  have hwrong : Bytes.value other ≠ (Checksum.ofBytes (Payload.ofEdit e)).toNat := by
    intro hvalue
    apply hne
    unfold Frame.sumBytes
    rw [← Bytes.littleEndian_value other, hlength, hvalue]
  exact ofBytes_of_wrong_sum es (Frame.length_payload_le_max e) hlength hwrong rest

/-- One byte or more of a frame has changed, all of them within four neighbouring bytes of the
payload or all within the checksum: recovery stops before that frame. -/
theorem ofBytes_altered_frame (hi : i < es.length) :
    let start := (Frame.ofEdits (es.take i)).length
    let sum := start + 4 + (Payload.ofEdit es[i]).length
    ((∃ lo, start + 4 ≤ lo ∧ lo + 4 ≤ sum ∧
        (Frame.ofEdits es).AlteredWithin lo (lo + 4) altered) ∨
      (Frame.ofEdits es).AlteredWithin sum (sum + 4) altered) →
    ofBytes altered = ⟨es.take i, start, some .checksum⟩ := by
  intro start sum haltered
  let count := Bytes.littleEndian 4 (Payload.ofEdit es[i]).length
  let front := Frame.ofEdits (es.take i) ++ count
  let rest := Frame.ofEdits (es.drop (i + 1))
  have hwhole : Frame.ofEdits es =
      front ++ Payload.ofEdit es[i] ++ (Frame.sumBytes es[i] ++ rest) := by
    rw [ofEdits_eq_of_lt hi]
    simp only [front, count, rest, List.append_assoc]
  have hfront : front.length = start + 4 := by
    rw [List.length_append, Bytes.length_littleEndian]
  rw [hwhole] at haltered
  rcases haltered with ⟨lo, hlo, hhi, haltered⟩ | haltered
  · obtain ⟨before, word, after, other, hpayload, hword, hlength, hne, rfl⟩ :=
      haltered.exists_word_within (by omega) (by omega)
    have hstop := ofBytes_altered_payload (es.take i) hpayload hlength (by omega) hne rest
    simpa only [front, count, List.append_assoc] using hstop
  · have hsumBytes : (Frame.sumBytes es[i]).length = 4 := Bytes.length_littleEndian 4 _
    have hsum : (front ++ Payload.ofEdit es[i]).length = sum := by
      rw [List.length_append, hfront]
    rw [← List.append_assoc] at haltered
    obtain ⟨other, hlength, hne, rfl⟩ := haltered.exists_word hsum (by omega)
    have hstop := ofBytes_altered_sum (es.take i) (hlength.trans hsumBytes) hne rest
    simpa only [front, count, List.append_assoc] using hstop

/-- In the middle one of three frames the identifier is changed, so that the payload would still be
read as an edit, or the first and the last byte of the checksum are. -/
theorem ofBytes_altered_frame_of_three :
    let es := [.memberRemoved (.ofNat 5), .shiftRemoved (.ofNat 6), .memberRemoved (.ofNat 7)]
    let bytes := Frame.ofEdits es
    ofBytes (bytes.set 66 1) = ⟨[.memberRemoved (.ofNat 5)], 36, some .checksum⟩ ∧
      ofBytes ((bytes.set 68 0).set 71 0) =
        ⟨[.memberRemoved (.ofNat 5)], 36, some .checksum⟩ := by
  intro es bytes
  constructor
  · exact @ofBytes_altered_frame es 1 _ (by decide)
      (Or.inl ⟨64, by decide +kernel, by decide +kernel, by decide +kernel⟩)
  · exact @ofBytes_altered_frame es 1 _ (by decide) (Or.inr (by decide +kernel))

end Recovery

end NurseryRota
