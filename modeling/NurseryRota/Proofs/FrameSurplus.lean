import Mathlib.Algebra.GroupWithZero.Nat
import Mathlib.Data.List.Basic
import NurseryRota.Proofs.IntactPrefix

/-!
# What frames carry behind their edits

The payload of a frame may go on behind its edit, and recovery passes over what stands there.  Intact
bytes are therefore the frames of edits with a surplus each, and of one list of these only.  Writing
the recovered edits anew leaves the surplus out, so the bytes come back exactly where there was none.
-/

namespace NurseryRota

namespace Frame

/-- An edit, and the bytes that follow it within its payload. -/
structure Load where
  edit : Edit
  surplus : Bytes

namespace Load

def payload (l : Load) : Bytes := Payload.ofEdit l.edit ++ l.surplus

/-- A frame may announce the payload. -/
def Fits (l : Load) : Prop := l.payload.length ≤ maxPayload

end Load

def ofLoads (ls : List Load) : Bytes := ls.flatMap fun l => ofPayload l.payload

/-- How many bytes of the frames belong to no edit. -/
def surplus (ls : List Load) : Nat := (ls.map fun l => l.surplus.length).sum

variable {l k : Load} {ls ks : List Load}

theorem ofLoads_cons (l : Load) (ls : List Load) :
    ofLoads (l :: ls) = ofPayload l.payload ++ ofLoads ls :=
  List.flatMap_cons

theorem length_ofLoads (ls : List Load) :
    (ofEdits (ls.map Load.edit)).length + surplus ls = (ofLoads ls).length := by
  induction ls with
  | nil => rfl
  | cons l ls ih =>
      have hframe : (ofPayload l.payload).length = (ofEdit l.edit).length + l.surplus.length := by
        unfold ofEdit Load.payload
        rw [length_ofPayload, length_ofPayload, List.length_append]
        omega
      have hsurplus : surplus (l :: ls) = l.surplus.length + surplus ls := by
        unfold surplus
        rw [List.map_cons, List.sum_cons]
      rw [ofLoads_cons, List.map_cons, ofEdits_cons, List.length_append, List.length_append, hframe,
        hsurplus, ← ih]
      omega

theorem surplus_eq_zero_iff : surplus ls = 0 ↔ ∀ l ∈ ls, l.surplus = [] := by
  unfold surplus
  rw [List.sum_eq_zero_iff_forall_eq_nat]
  simp

/-! ## One list of loads -/

theorem carries_iff {frame : Bytes} {e : Edit} :
    Carries frame e ↔ ∃ l : Load, l.Fits ∧ l.edit = e ∧ frame = ofPayload l.payload := by
  constructor
  · rintro ⟨extra, hmax, hframe⟩
    exact ⟨⟨e, extra⟩, hmax, rfl, hframe⟩
  · rintro ⟨l, hfits, rfl, hframe⟩
    exact ⟨l.surplus, hfits, hframe⟩

theorem ofPayload_injective {payload payload' : Bytes} (h : ofPayload payload = ofPayload payload') :
    payload = payload' := by
  have hlength := congrArg List.length h
  rw [length_ofPayload, length_ofPayload] at hlength
  unfold ofPayload at h
  rw [List.append_assoc, List.append_assoc] at h
  have htail := (List.append_inj h (by simp only [Bytes.length_littleEndian])).2
  exact (List.append_inj htail (by omega)).1

theorem Load.eq_of_payload_eq (hedit : l.edit = k.edit) (hpayload : l.payload = k.payload) : l = k := by
  obtain ⟨e, more⟩ := l
  obtain ⟨e', more'⟩ := k
  dsimp only at hedit
  subst hedit
  rw [Load.mk.injEq]
  exact ⟨rfl, List.append_cancel_left hpayload⟩

theorem Load.Fits.first_ofPayload (hl : l.Fits) (more : Bytes) :
    first (ofPayload l.payload ++ more) = .ok (l.edit, (ofPayload l.payload).length) :=
  first_eq_ok_iff_carries.mpr ⟨_, more, rfl, rfl, carries_iff.mpr ⟨l, hl, rfl, rfl⟩⟩

/-- Frames are told apart without anything between them. -/
theorem ofLoads_injective (hls : ∀ l ∈ ls, l.Fits) (hks : ∀ k ∈ ks, k.Fits)
    (h : ofLoads ls = ofLoads ks) : ls = ks := by
  have hne : ∀ (l : Load) (ls : List Load), ofLoads (l :: ls) ≠ [] := by
    intro l ls hnil
    have hlength := congrArg List.length hnil
    rw [ofLoads_cons, List.length_append, length_ofPayload] at hlength
    simp at hlength
  induction ls generalizing ks with
  | nil =>
      cases ks with
      | nil => rfl
      | cons k ks => exact absurd h.symm (hne k ks)
  | cons l ls ih =>
      cases ks with
      | nil => exact absurd h (hne l ls)
      | cons k ks =>
          rw [ofLoads_cons, ofLoads_cons] at h
          have hfirst := (hls l (by simp)).first_ofPayload (ofLoads ls)
          rw [h, (hks k (by simp)).first_ofPayload (ofLoads ks)] at hfirst
          obtain ⟨hedit, hsize⟩ := Prod.mk.inj (Except.ok.inj hfirst)
          obtain ⟨hframe, hrest⟩ := List.append_inj h hsize.symm
          have hpayload := ofPayload_injective hframe
          rw [Load.eq_of_payload_eq hedit.symm hpayload,
            ih (fun m hm => hls m (by simp [hm])) (fun m hm => hks m (by simp [hm])) hrest]

theorem framed_iff {bytes : Bytes} {es : List Edit} :
    Framed bytes es ↔
      ∃ ls : List Load, (∀ l ∈ ls, l.Fits) ∧ bytes = ofLoads ls ∧ ls.map Load.edit = es := by
  constructor
  · intro h
    induction h with
    | nil => exact ⟨[], by simp, rfl, rfl⟩
    | cons hcarries _ ih =>
        obtain ⟨l, hfits, rfl, rfl⟩ := carries_iff.mp hcarries
        obtain ⟨ls, hls, rfl, rfl⟩ := ih
        exact ⟨l :: ls, by simpa [hfits] using hls, ofLoads_cons l ls, rfl⟩
  · rintro ⟨ls, hls, rfl, rfl⟩
    induction ls with
    | nil => exact Framed.nil
    | cons l ls ih =>
        rw [ofLoads_cons]
        exact Framed.cons (carries_iff.mpr ⟨l, hls l (by simp), rfl, rfl⟩)
          (ih fun m hm => hls m (by simp [hm]))

theorem ofEdits_eq_ofLoads (hnone : ∀ l ∈ ls, l.surplus = []) :
    ofEdits (ls.map Load.edit) = ofLoads ls := by
  unfold ofEdits ofLoads
  rw [List.flatMap_map]
  apply List.flatMap_congr
  intro l hl
  unfold ofEdit Load.payload
  rw [hnone l hl, List.append_nil]

end Frame

/-- The frames of edits are recovered as these edits, and to their end.  The other way round, the
frames that are recovered from any bytes have one list of loads: written anew, their edits are
shorter by the surplus, and they are the recovered bytes exactly where no frame has any. -/
theorem Recovery.rewriting_drops_surplus :
    (∀ es, ofBytes (Frame.ofEdits es) = ⟨es, (Frame.ofEdits es).length, none⟩) ∧
      ∀ bytes, let r := ofBytes bytes
        ∃ ls : List Frame.Load, (∀ l ∈ ls, l.Fits) ∧ bytes.take r.validLength = Frame.ofLoads ls ∧
          ls.map Frame.Load.edit = r.edits ∧
          (∀ ks : List Frame.Load, (∀ k ∈ ks, k.Fits) →
            bytes.take r.validLength = Frame.ofLoads ks → ks = ls) ∧
          (Frame.ofEdits r.edits).length ≤ r.validLength ∧
          (Frame.ofEdits r.edits).length + Frame.surplus ls = r.validLength ∧
          (Frame.ofEdits r.edits = bytes.take r.validLength ↔ ∀ l ∈ ls, l.surplus = []) := by
  refine ⟨Intact.ofEdits, ?_⟩
  intro bytes r
  have hintact : Intact (bytes.take r.validLength) r.edits := intact_take bytes
  have hle : r.validLength ≤ bytes.length := validLength_le bytes
  obtain ⟨ls, hfits, htake, hedits⟩ := Frame.framed_iff.mp (intact_iff_framed.mp hintact)
  have hlength : (Frame.ofEdits r.edits).length + Frame.surplus ls = r.validLength := by
    have hwhole := congrArg List.length htake
    rw [List.length_take, Nat.min_eq_left hle, ← Frame.length_ofLoads,
      hedits] at hwhole
    exact hwhole.symm
  refine ⟨ls, hfits, htake, hedits, ?_, by omega, hlength, ?_⟩
  · intro ks hks hother
    exact Frame.ofLoads_injective hks hfits (hother.symm.trans htake)
  · constructor
    · intro hsame
      have hwhole := congrArg List.length hsame
      rw [List.length_take, Nat.min_eq_left hle] at hwhole
      exact Frame.surplus_eq_zero_iff.mp (by omega)
    · intro hnone
      rw [htake, ← Frame.ofEdits_eq_ofLoads hnone, hedits]

end NurseryRota
