import NurseryRota.Journal.Recovery
import NurseryRota.Proofs.PayloadRoundTrip

/-!
# Recovery of frames

Bytes are intact when recovery reads them to their end.  Whatever follows intact bytes is
recovered as if it stood alone, a batch's frames are intact, and of a batch that was cut off at
any byte the whole frames in front are recovered.  Cutting a damaged tail off leaves intact
bytes.
-/

namespace NurseryRota

namespace Bytes

variable {count : Nat} {bytes word rest : Bytes} (more : Bytes)

theorem split?_append_right (h : split? count bytes = some (word, rest)) :
    split? count (bytes ++ more) = some (word, rest ++ more) := by
  rw [split?_eq] at h ⊢
  split at h
  · next hle =>
      cases h
      rw [if_pos (by rw [List.length_append]; omega), List.take_append_of_le_length hle,
        List.drop_append_of_le_length hle]
  · cases h

theorem number?_append_right {n : Nat} (h : number? count bytes = some (n, rest)) :
    number? count (bytes ++ more) = some (n, rest ++ more) := by
  unfold number? at h ⊢
  rw [Option.map_eq_some_iff] at h
  obtain ⟨⟨word, rest⟩, hsplit, heq⟩ := h
  cases heq
  rw [split?_append_right more hsplit]
  rfl

theorem split?_take (h : split? count bytes = some (word, rest)) {k : Nat} (hk : count ≤ k) :
    split? count (bytes.take k) = some (word, rest.take (k - count)) := by
  rw [split?_eq] at h ⊢
  split at h
  · next hle =>
      cases h
      rw [List.length_take, if_pos (by omega), List.take_take, List.drop_take,
        Nat.min_eq_left hk]
  · cases h

theorem number?_take {n : Nat} (h : number? count bytes = some (n, rest)) {k : Nat}
    (hk : count ≤ k) : number? count (bytes.take k) = some (n, rest.take (k - count)) := by
  unfold number? at h ⊢
  rw [Option.map_eq_some_iff] at h
  obtain ⟨⟨word, rest⟩, hsplit, heq⟩ := h
  cases heq
  rw [split?_take hsplit hk]
  rfl

theorem length_of_split? (h : split? count bytes = some (word, rest)) :
    bytes.length = count + rest.length := by
  rw [split?_eq] at h
  split at h
  · cases h
    rw [List.length_drop]
    omega
  · cases h

theorem length_of_number? {n : Nat} (h : number? count bytes = some (n, rest)) :
    bytes.length = count + rest.length := by
  unfold number? at h
  rw [Option.map_eq_some_iff] at h
  obtain ⟨⟨word, rest⟩, hsplit, heq⟩ := h
  cases heq
  exact length_of_split? hsplit

end Bytes

namespace Frame

theorem length_ofPayload (payload : Bytes) : (ofPayload payload).length = payload.length + 8 := by
  unfold ofPayload
  simp only [List.length_append, Bytes.length_littleEndian]
  omega

theorem first_eq_ok_iff {bytes : Bytes} {e : Edit} {size : Nat} :
    first bytes = .ok (e, size) ↔ ∃ length body payload tail rest extra,
      Bytes.number? 4 bytes = some (length, body) ∧ length ≤ maxPayload ∧
      Bytes.split? length body = some (payload, tail) ∧
      Bytes.number? 4 tail = some ((Checksum.ofBytes payload).toNat, rest) ∧
      Payload.edit? payload = some (e, extra) ∧ size = length + 8 := by
  unfold first
  constructor
  · intro h
    split at h
    · cases h
    · next length body hnumber =>
        split at h
        · cases h
        · next hlength =>
            split at h
            · cases h
            · next payload tail hsplit =>
                split at h
                · cases h
                · next sum rest hsum =>
                    split at h
                    · cases h
                    · next hequal =>
                        split at h
                        · cases h
                        · next e extra hedit =>
                            cases h
                            have hsame : sum = (Checksum.ofBytes payload).toNat :=
                              Decidable.not_not.mp hequal
                            subst hsame
                            exact ⟨length, body, payload, tail, rest, extra, hnumber,
                              Nat.le_of_not_lt hlength, hsplit, hsum, hedit, rfl⟩
  · rintro ⟨length, body, payload, tail, rest, extra, hnumber, hlength, hsplit, hsum, hedit, rfl⟩
    rw [hnumber]
    dsimp only
    rw [if_neg (Nat.not_lt.mpr hlength), hsplit]
    dsimp only
    rw [hsum]
    dsimp only
    rw [if_neg (by simp), hedit]

theorem first_append {bytes : Bytes} {e : Edit} {size : Nat} (h : first bytes = .ok (e, size))
    (more : Bytes) : first (bytes ++ more) = .ok (e, size) := by
  rw [first_eq_ok_iff] at h ⊢
  obtain ⟨length, body, payload, tail, rest, extra, hnumber, hlength, hsplit, hsum, hedit, hsize⟩ := h
  exact ⟨length, body ++ more, payload, tail ++ more, rest ++ more, extra,
    Bytes.number?_append_right more hnumber, hlength, Bytes.split?_append_right more hsplit,
    Bytes.number?_append_right more hsum, hedit, hsize⟩

theorem first_take_size {bytes : Bytes} {e : Edit} {size : Nat}
    (h : first bytes = .ok (e, size)) : first (bytes.take size) = .ok (e, size) := by
  rw [first_eq_ok_iff] at h ⊢
  obtain ⟨length, body, payload, tail, rest, extra, hnumber, hlength, hsplit, hsum, hedit, rfl⟩ := h
  exact ⟨length, _, payload, _, _, extra, Bytes.number?_take hnumber (by omega), hlength,
    Bytes.split?_take hsplit (by omega), Bytes.number?_take hsum (by omega), hedit, rfl⟩

theorem size_le_of_first {bytes : Bytes} {e : Edit} {size : Nat}
    (h : first bytes = .ok (e, size)) : size ≤ bytes.length := by
  rw [first_eq_ok_iff] at h
  obtain ⟨length, body, payload, tail, rest, extra, hnumber, -, hsplit, hsum, -, rfl⟩ := h
  have h₁ := Bytes.length_of_number? hnumber
  have h₂ := Bytes.length_of_split? hsplit
  have h₃ := Bytes.length_of_number? hsum
  omega

theorem length_payload_le_max (e : Edit) : (Payload.ofEdit e).length ≤ maxPayload :=
  Nat.le_trans (Payload.length_ofEdit_le e) (by decide)

theorem length_payload_lt (e : Edit) : (Payload.ofEdit e).length < Nat.pow 256 4 :=
  Nat.lt_of_le_of_lt (Payload.length_ofEdit_le e) (by decide)

theorem first_ofEdit (e : Edit) (more : Bytes) :
    first (ofEdit e ++ more) = .ok (e, (ofEdit e).length) := by
  have hsum : (Checksum.ofBytes (Payload.ofEdit e)).toNat < Nat.pow 256 4 :=
    (Checksum.ofBytes (Payload.ofEdit e)).isLt
  have hedit := Payload.edit?_ofEdit e []
  rw [List.append_nil] at hedit
  let checksum := Bytes.littleEndian 4 (Checksum.ofBytes (Payload.ofEdit e)).toNat
  rw [first_eq_ok_iff]
  refine ⟨(Payload.ofEdit e).length, Payload.ofEdit e ++ (checksum ++ more), Payload.ofEdit e,
    checksum ++ more, more, [], ?_, length_payload_le_max e, ?_, ?_, hedit, length_ofPayload _⟩
  · unfold ofEdit ofPayload
    rw [List.append_assoc, List.append_assoc]
    exact Payload.number?_littleEndian 4 (length_payload_lt e) _
  · exact Payload.split?_append rfl _
  · exact Payload.number?_littleEndian 4 hsum _

theorem ofEdits_cons (e : Edit) (es : List Edit) : ofEdits (e :: es) = ofEdit e ++ ofEdits es :=
  List.flatMap_cons

theorem ofEdits_append (es fs : List Edit) : ofEdits (es ++ fs) = ofEdits es ++ ofEdits fs :=
  List.flatMap_append

end Frame

namespace Recovery

variable {bytes : Bytes}

theorem ofBytes_nil : ofBytes [] = empty := by
  rw [ofBytes, dif_pos rfl]

theorem ofBytes_of_ok {e : Edit} {size : Nat} (h : Frame.first bytes = .ok (e, size)) :
    ofBytes bytes = (ofBytes (bytes.drop size)).push e size := by
  have hne : bytes ≠ [] := by
    rintro rfl
    have hpos := Frame.pos_of_first h
    have hle := Frame.size_le_of_first h
    rw [List.length_nil] at hle
    omega
  rw [ofBytes, dif_neg hne]
  split
  · next damage hdamage =>
      rw [h] at hdamage
      cases hdamage
  · next e' size' hok =>
      rw [h] at hok
      cases hok
      rfl

theorem ofBytes_of_error {damage : Damage} (hne : bytes ≠ [])
    (h : Frame.first bytes = .error damage) : ofBytes bytes = ⟨[], 0, some damage⟩ := by
  rw [ofBytes, dif_neg hne]
  split
  · next damage' hdamage =>
      rw [h] at hdamage
      cases hdamage
      rfl
  · next e size hok =>
      rw [h] at hok
      cases hok

theorem frames_induction {motive : Bytes → Prop} (nil : motive [])
    (damaged : ∀ bytes damage, bytes ≠ [] → Frame.first bytes = .error damage → motive bytes)
    (frame : ∀ bytes e size, Frame.first bytes = .ok (e, size) → motive (bytes.drop size) →
      motive bytes) (bytes : Bytes) : motive bytes := by
  induction hn : bytes.length using Nat.strongRecOn generalizing bytes with
  | ind n ih =>
      by_cases hne : bytes = []
      · subst hne
        exact nil
      · cases hfirst : Frame.first bytes with
        | error damage => exact damaged bytes damage hne hfirst
        | ok read =>
            obtain ⟨e, size⟩ := read
            have hpos := Frame.pos_of_first hfirst
            have hle := Frame.size_le_of_first hfirst
            apply frame bytes e size hfirst
            apply ih (bytes.drop size).length _ _ rfl
            rw [List.length_drop]
            omega

end Recovery

/-- The bytes are the frames of edits to their end. -/
def Intact (bytes : Bytes) (edits : List Edit) : Prop :=
  Recovery.ofBytes bytes = ⟨edits, bytes.length, none⟩

namespace Intact

variable {bytes more : Bytes} {edits es : List Edit}

theorem edits_eq (h : Intact bytes edits) : (Recovery.ofBytes bytes).edits = edits :=
  congrArg Recovery.edits h

theorem validLength_eq (h : Intact bytes edits) :
    (Recovery.ofBytes bytes).validLength = bytes.length :=
  congrArg Recovery.validLength h

theorem damage_eq (h : Intact bytes edits) : (Recovery.ofBytes bytes).damage = none :=
  congrArg Recovery.damage h

theorem nil : Intact [] [] := Recovery.ofBytes_nil

theorem cons {e : Edit} {size : Nat} (hfirst : Frame.first bytes = .ok (e, size))
    (hrest : Intact (bytes.drop size) es) : Intact bytes (e :: es) := by
  have hle := Frame.size_le_of_first hfirst
  unfold Intact at hrest ⊢
  rw [Recovery.ofBytes_of_ok hfirst, hrest]
  unfold Recovery.push
  rw [Recovery.mk.injEq, List.length_drop]
  exact ⟨rfl, by dsimp only; omega, rfl⟩

theorem eq_cons {e : Edit} {size : Nat} (h : Intact bytes edits)
    (hfirst : Frame.first bytes = .ok (e, size)) :
    ∃ es, edits = e :: es ∧ Intact (bytes.drop size) es := by
  have hle := Frame.size_le_of_first hfirst
  unfold Intact at h ⊢
  rw [Recovery.ofBytes_of_ok hfirst] at h
  unfold Recovery.push at h
  rw [Recovery.mk.injEq] at h
  obtain ⟨hedits, hlength, hdamage⟩ := h
  refine ⟨_, hedits.symm, ?_⟩
  rw [Recovery.mk.injEq, List.length_drop]
  exact ⟨rfl, by omega, hdamage⟩

/-- What follows intact bytes is recovered as it is alone. -/
theorem ofBytes_append (h : Intact bytes edits) (more : Bytes) :
    Recovery.ofBytes (bytes ++ more) =
      ⟨edits ++ (Recovery.ofBytes more).edits, bytes.length + (Recovery.ofBytes more).validLength,
        (Recovery.ofBytes more).damage⟩ := by
  induction bytes using Recovery.frames_induction generalizing edits with
  | nil =>
      have hedits : [] = edits := nil.edits_eq.symm.trans h.edits_eq
      subst hedits
      simp
  | damaged bytes damage hne hfirst =>
      unfold Intact at h
      rw [Recovery.ofBytes_of_error hne hfirst, Recovery.mk.injEq] at h
      cases h.2.2
  | frame bytes e size hfirst ih =>
      have hle := Frame.size_le_of_first hfirst
      obtain ⟨es, rfl, hrest⟩ := h.eq_cons hfirst
      rw [Recovery.ofBytes_of_ok (Frame.first_append hfirst more),
        List.drop_append_of_le_length hle, ih hrest]
      unfold Recovery.push
      rw [Recovery.mk.injEq, List.length_drop]
      exact ⟨rfl, by dsimp only; omega, rfl⟩

theorem append (h : Intact bytes edits) (hmore : Intact more es) :
    Intact (bytes ++ more) (edits ++ es) := by
  have happend := h.ofBytes_append more
  unfold Intact at hmore ⊢
  rw [happend, hmore, List.length_append]

theorem ofEdits (batch : List Edit) : Intact (Frame.ofEdits batch) batch := by
  induction batch with
  | nil => exact nil
  | cons e batch ih =>
      have hfirst := Frame.first_ofEdit e (Frame.ofEdits batch)
      rw [← Frame.ofEdits_cons] at hfirst
      apply cons hfirst
      rw [Frame.ofEdits_cons, List.drop_left]
      exact ih

end Intact

namespace Recovery

/-- Cut to the frames that were recovered, bytes are intact. -/
theorem intact_take (bytes : Bytes) :
    Intact (bytes.take (ofBytes bytes).validLength) (ofBytes bytes).edits := by
  induction bytes using frames_induction with
  | nil =>
      rw [ofBytes_nil]
      exact Intact.nil
  | damaged bytes damage hne hfirst =>
      rw [ofBytes_of_error hne hfirst]
      exact Intact.nil
  | frame bytes e size hfirst ih =>
      have hle := Frame.size_le_of_first hfirst
      rw [ofBytes_of_ok hfirst]
      unfold push
      dsimp only
      rw [List.take_add]
      apply Intact.cons (Frame.first_append (Frame.first_take_size hfirst) _)
      rw [List.drop_left' (by rw [List.length_take]; omega)]
      exact ih

theorem intact_of_undamaged {bytes : Bytes} (h : (ofBytes bytes).damage = none) :
    Intact bytes (ofBytes bytes).edits := by
  induction bytes using frames_induction with
  | nil =>
      rw [ofBytes_nil]
      exact Intact.nil
  | damaged bytes damage hne hfirst =>
      rw [ofBytes_of_error hne hfirst] at h
      cases h
  | frame bytes e size hfirst ih =>
      rw [ofBytes_of_ok hfirst] at h ⊢
      exact Intact.cons hfirst (ih h)

end Recovery

end NurseryRota
