import NurseryRota.Proofs.FrameRecovery
import NurseryRota.Proofs.PayloadExact

/-!
# The longest intact prefix

What recovery accepts is told without recovery: bytes are framed when they are frames one after
another, each with a payload that begins with an edit and with the checksum of that payload.
Recovery takes the longest framed prefix, and the damage that it reports is what is wrong with the
bytes that follow.
-/

namespace NurseryRota

namespace Frame

/-- The bytes are one frame of the edit.  The payload begins with the edit's bytes, and more may
follow them there. -/
def Carries (frame : Bytes) (e : Edit) : Prop :=
  ∃ extra, (Payload.ofEdit e ++ extra).length ≤ maxPayload ∧
    frame = ofPayload (Payload.ofEdit e ++ extra)

/-- The length that bytes announce for the payload of their first frame. -/
def announced (bytes : Bytes) : Nat := Bytes.value (bytes.take 4)

def payload (bytes : Bytes) : Bytes := (bytes.drop 4).take (announced bytes)

def storedSum (bytes : Bytes) : Nat := Bytes.value ((bytes.drop (announced bytes + 4)).take 4)

/-- The frame that the bytes announce is allowed, and is there to its end. -/
def Complete (bytes : Bytes) : Prop :=
  announced bytes ≤ maxPayload ∧ announced bytes + 8 ≤ bytes.length

variable {bytes : Bytes} {e : Edit} {size : Nat}

theorem first_eq_ok_iff_carries :
    first bytes = .ok (e, size) ↔
      ∃ frame rest, bytes = frame ++ rest ∧ size = frame.length ∧ Carries frame e := by
  rw [first_eq_ok_iff]
  constructor
  · rintro ⟨length, body, payload, tail, rest, extra, hnumber, hmax, hsplit, hsum, hedit, hsize⟩
    have hbytes := Payload.takesWritten_number? 4 _ _ _ hnumber
    obtain ⟨hbody, hlength⟩ := Bytes.eq_append_of_split? hsplit
    have htail := Payload.takesWritten_number? 4 _ _ _ hsum
    have hpayload := Payload.edit?_eq_some_iff.mp hedit
    refine ⟨ofPayload payload, rest, ?_, ?_, extra, ?_, ?_⟩
    · simp [hbytes, hbody, htail, ofPayload, hlength]
    · rw [hsize, length_ofPayload, hlength]
    · rw [← hpayload, hlength]
      exact hmax
    · rw [← hpayload]
  · rintro ⟨frame, rest, rfl, rfl, extra, hmax, rfl⟩
    generalize hpayload : Payload.ofEdit e ++ extra = payload at hmax
    have hlength : payload.length < Nat.pow 256 4 := Nat.lt_of_le_of_lt hmax (by decide)
    have hsum : (Checksum.ofBytes payload).toNat < Nat.pow 256 4 := (Checksum.ofBytes payload).isLt
    have hbytes : ofPayload payload ++ rest =
        Bytes.littleEndian 4 payload.length ++ (payload ++
          (Bytes.littleEndian 4 (Checksum.ofBytes payload).toNat ++ rest)) := by
      simp [ofPayload]
    refine ⟨payload.length, _, payload, _, rest, extra, ?_, hmax, Payload.split?_append rfl _,
      Payload.number?_littleEndian 4 hsum rest, ?_, length_ofPayload payload⟩
    · rw [hbytes]
      exact Payload.number?_littleEndian 4 hlength _
    · rw [Payload.edit?_eq_some_iff, hpayload]

/-- What the first frame is, by the fields that the bytes have for it. -/
theorem first_eq (bytes : Bytes) : first bytes =
    if bytes.length < 4 then .error .torn
    else if maxPayload < announced bytes then .error (.oversized (announced bytes))
    else if bytes.length < announced bytes + 8 then .error .torn
    else if storedSum bytes ≠ (Checksum.ofBytes (payload bytes)).toNat then .error .checksum
    else
      match Payload.edit? (payload bytes) with
      | none => .error .undecodable
      | some (e, _) => .ok (e, announced bytes + 8) := by
  unfold first Bytes.number?
  simp only [Bytes.split?_eq]
  by_cases hhead : bytes.length < 4
  · rw [if_pos hhead, if_neg (by omega)]
    rfl
  · have hannounced : Bytes.value (bytes.take 4) = announced bytes := rfl
    rw [if_neg hhead, if_pos (by omega)]
    simp only [Option.map_some, hannounced]
    by_cases hmax : maxPayload < announced bytes
    · rw [if_pos hmax, if_pos hmax]
    · rw [if_neg hmax, if_neg hmax]
      by_cases hbody : announced bytes ≤ (bytes.drop 4).length
      · rw [if_pos hbody]
        simp only [List.drop_drop, Nat.add_comm 4 (announced bytes)]
        by_cases hsum : 4 ≤ (bytes.drop (announced bytes + 4)).length
        · rw [if_pos hsum, if_neg (by rw [List.length_drop] at hsum; omega)]
          rfl
        · rw [if_neg hsum, if_pos (by rw [List.length_drop] at hsum; omega)]
          rfl
      · rw [if_neg hbody, if_pos (by rw [List.length_drop] at hbody; omega)]

end Frame

/-- What the damage says of the bytes at which recovery stops. -/
def Damage.Describes (bytes : Bytes) : Damage → Prop
  | .oversized n => 4 ≤ bytes.length ∧ Frame.announced bytes = n ∧ maxPayload < n
  | .torn => bytes.length < 4 ∨
      Frame.announced bytes ≤ maxPayload ∧ bytes.length < Frame.announced bytes + 8
  | .checksum => Frame.Complete bytes ∧
      Frame.storedSum bytes ≠ (Checksum.ofBytes (Frame.payload bytes)).toNat
  | .undecodable => Frame.Complete bytes ∧
      Frame.storedSum bytes = (Checksum.ofBytes (Frame.payload bytes)).toNat ∧
      ∀ e extra, Frame.payload bytes ≠ Payload.ofEdit e ++ extra

theorem Payload.edit?_eq_none_iff {bytes : Bytes} :
    Payload.edit? bytes = none ↔ ∀ e extra, bytes ≠ Payload.ofEdit e ++ extra := by
  simp only [Option.eq_none_iff_forall_ne_some, Prod.forall, ne_eq, Payload.edit?_eq_some_iff]

theorem Frame.first_eq_error_iff {bytes : Bytes} {damage : Damage} :
    first bytes = .error damage ↔ damage.Describes bytes := by
  rw [first_eq]
  cases damage with
  | torn =>
      unfold Damage.Describes
      grind
  | checksum =>
      unfold Damage.Describes Complete
      grind
  | oversized n =>
      unfold Damage.Describes
      grind
  | undecodable =>
      unfold Damage.Describes Complete
      rw [← Payload.edit?_eq_none_iff]
      grind

/-- The bytes are frames one after another, which carry the edits in order. -/
inductive Framed : Bytes → List Edit → Prop
  | nil : Framed [] []
  | cons {frame rest : Bytes} {e : Edit} {es : List Edit} (first : Frame.Carries frame e)
      (others : Framed rest es) : Framed (frame ++ rest) (e :: es)

theorem intact_iff_framed {bytes : Bytes} {es : List Edit} : Intact bytes es ↔ Framed bytes es := by
  constructor
  · intro h
    induction bytes using Recovery.frames_induction generalizing es with
    | nil =>
        have hes : [] = es := Intact.nil.edits_eq.symm.trans h.edits_eq
        rw [← hes]
        exact Framed.nil
    | damaged bytes damage hne hfirst =>
        have hnone := h.damage_eq
        rw [Recovery.ofBytes_of_error hne hfirst] at hnone
        cases hnone
    | frame bytes e size hfirst ih =>
        obtain ⟨others, rfl, hrest⟩ := h.eq_cons hfirst
        obtain ⟨frame, rest, rfl, rfl, hcarries⟩ := Frame.first_eq_ok_iff_carries.mp hfirst
        rw [List.drop_left] at ih hrest
        exact Framed.cons hcarries (ih hrest)
  · intro h
    induction h with
    | nil => exact Intact.nil
    | @cons frame rest e es hcarries _ ih =>
        apply Intact.cons (Frame.first_eq_ok_iff_carries.mpr ⟨frame, rest, rfl, rfl, hcarries⟩)
        rw [List.drop_left]
        exact ih

namespace Recovery

variable {bytes : Bytes}

theorem damage_eq_none_iff :
    (ofBytes bytes).damage = none ↔ (ofBytes bytes).validLength = bytes.length := by
  constructor
  · intro h
    exact (intact_of_undamaged h).validLength_eq
  · intro h
    have hintact := intact_take bytes
    rw [h, List.take_length] at hintact
    exact hintact.damage_eq

theorem validLength_le (bytes : Bytes) : (ofBytes bytes).validLength ≤ bytes.length := by
  induction bytes using frames_induction with
  | nil => simp [ofBytes_nil, empty]
  | damaged bytes damage hne hfirst => simp [ofBytes_of_error hne hfirst]
  | frame bytes e size hfirst ih =>
      have hsize := Frame.size_le_of_first hfirst
      rw [List.length_drop] at ih
      rw [ofBytes_of_ok hfirst, push]
      dsimp only
      omega

/-- Recovery stops where no frame can be read, and reports what is wrong there. -/
theorem first_rest {damage : Damage} (h : (ofBytes bytes).damage = some damage) :
    Frame.first (bytes.drop (ofBytes bytes).validLength) = .error damage := by
  induction bytes using frames_induction with
  | nil =>
      rw [ofBytes_nil] at h
      cases h
  | damaged bytes found hne hfirst =>
      rw [ofBytes_of_error hne hfirst] at h ⊢
      cases h
      exact hfirst
  | frame bytes e size hfirst ih =>
      rw [ofBytes_of_ok hfirst] at h ⊢
      rw [push, ← List.drop_drop]
      exact ih h

/-- No framed prefix is longer than the one that is recovered, and none has other edits. -/
theorem framed_take_le {k : Nat} {es : List Edit} (hk : k ≤ bytes.length)
    (h : Framed (bytes.take k) es) :
    k ≤ (ofBytes bytes).validLength ∧ es <+: (ofBytes bytes).edits := by
  have happend := (intact_iff_framed.mpr h).ofBytes_append (bytes.drop k)
  rw [List.take_append_drop, List.length_take, Nat.min_eq_left hk] at happend
  rw [happend]
  exact ⟨Nat.le_add_right _ _, List.prefix_append _ _⟩

/-- Recovery takes the longest prefix that is framed, with the edits of its frames.  It reports no
damage exactly when that is the whole; otherwise what follows begins with no frame, and the damage
describes it.  Frames that are written behind the prefix are recovered after it. -/
theorem ofBytes_longest_framed (bytes : Bytes) :
    let r := ofBytes bytes
    let rest := bytes.drop r.validLength
    r.validLength ≤ bytes.length ∧ Framed (bytes.take r.validLength) r.edits ∧
      (∀ k es, k ≤ bytes.length → Framed (bytes.take k) es →
        k ≤ r.validLength ∧ es <+: r.edits) ∧
      (r.damage = none ↔ r.validLength = bytes.length) ∧
      (r.damage ≠ none →
        (∀ frame e, frame <+: rest → ¬ Frame.Carries frame e) ∧
        ∀ damage, r.damage = some damage ↔ damage.Describes rest) ∧
      ∀ es, ofBytes (bytes.take r.validLength ++ Frame.ofEdits es) =
        ⟨r.edits ++ es, (bytes.take r.validLength ++ Frame.ofEdits es).length, none⟩ := by
  intro r rest
  have hintact : Intact (bytes.take r.validLength) r.edits := intact_take bytes
  refine ⟨validLength_le bytes, intact_iff_framed.mp hintact, fun k es => framed_take_le,
    damage_eq_none_iff, ?_, ?_⟩
  · intro hdamaged
    obtain ⟨found, hfound⟩ := Option.ne_none_iff_exists'.mp hdamaged
    have hfirst : Frame.first rest = .error found := first_rest hfound
    constructor
    · intro frame e hframe hcarries
      obtain ⟨more, hmore⟩ := hframe
      have hok := Frame.first_eq_ok_iff_carries.mpr ⟨frame, more, rfl, rfl, hcarries⟩
      rw [hmore, hfirst] at hok
      cases hok
    · intro damage
      rw [← Frame.first_eq_error_iff, hfirst, hfound, Option.some.injEq, Except.error.injEq]
  · intro es
    exact hintact.append (Intact.ofEdits es)

end Recovery

end NurseryRota
