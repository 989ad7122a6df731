import Mathlib.Order.Bounds.Basic
import NurseryRota.Proofs.IntactPrefix

/-!
# A cut loses the end and nothing else

A journal may be cut off at any byte, in front of its damage or behind it.  Where the frames of the
bytes end does not depend on what comes later, so those that end by the cut are recovered as before,
and the edits lost are the last ones.  A cut between two frames leaves no trace.  One within a frame
leaves its front, and whatever field the cut falls into, that is a torn frame.
-/

namespace NurseryRota

/-- The first `n` frames of the bytes end at a place. -/
def FramesEnd (bytes : Bytes) (n stop : Nat) : Prop :=
  stop ≤ bytes.length ∧ ∃ es, es.length = n ∧ Framed (bytes.take stop) es

/-! ## Frames within frames -/

namespace Framed

variable {front more bytes : Bytes} {es fs : List Edit} {e : Edit}

theorem nil_iff : Framed bytes [] ↔ bytes = [] := by
  constructor
  · intro h
    cases h
    rfl
  · rintro rfl
    exact Framed.nil

theorem carries (h : Framed bytes [e]) : Frame.Carries bytes e := by
  cases h with
  | cons first others =>
      rw [nil_iff.mp others, List.append_nil]
      exact first

/-- What follows the frames of some edits is framed as well, if the whole is. -/
theorem of_append (h : Framed front es) (hall : Framed (front ++ more) fs) :
    ∃ gs, fs = es ++ gs ∧ Framed more gs := by
  have happend := (intact_iff_framed.mpr h).ofBytes_append more
  have hwhole := intact_iff_framed.mpr hall
  rw [Intact, happend, Recovery.mk.injEq] at hwhole
  obtain ⟨hedits, -, hdamage⟩ := hwhole
  exact ⟨_, hedits.symm, intact_iff_framed.mp (Recovery.intact_of_undamaged hdamage)⟩

theorem exists_take (h : Framed bytes es) {n : Nat} (hn : n ≤ es.length) :
    ∃ stop ≤ bytes.length, Framed (bytes.take stop) (es.take n) := by
  induction h generalizing n with
  | nil => exact ⟨0, Nat.le_refl 0, by simpa using Framed.nil⟩
  | @cons frame rest e es first others ih =>
      cases n with
      | zero => exact ⟨0, Nat.zero_le _, Framed.nil⟩
      | succ n =>
          obtain ⟨stop, hstop, hframed⟩ := ih (Nat.le_of_succ_le_succ hn)
          refine ⟨frame.length + stop, ?_, ?_⟩
          · rw [List.length_append]
            omega
          · rw [List.take_length_add_append, List.take_succ_cons]
            exact Framed.cons first hframed

end Framed

namespace FramesEnd

variable {bytes : Bytes} {m n p q : Nat}

/-- Between two ends are the frames that the first of them lacks. -/
theorem exists_between (hm : FramesEnd bytes m p) (hn : FramesEnd bytes n q) (hpq : p ≤ q) :
    ∃ gs, m + gs.length = n ∧ Framed ((bytes.take q).drop p) gs := by
  obtain ⟨hp, es, rfl, hes⟩ := hm
  obtain ⟨hq, fs, rfl, hfs⟩ := hn
  have hfront : (bytes.take q).take p = bytes.take p := by
    rw [List.take_take, Nat.min_eq_left hpq]
  rw [← hfront] at hes
  rw [← List.take_append_drop p (bytes.take q)] at hfs
  obtain ⟨gs, rfl, hgs⟩ := hes.of_append hfs
  exact ⟨gs, by rw [List.length_append], hgs⟩

theorem lt_of_lt (hm : FramesEnd bytes m p) (hn : FramesEnd bytes n q) (hpq : p < q) : m < n := by
  obtain ⟨gs, hlength, hgs⟩ := hm.exists_between hn (Nat.le_of_lt hpq)
  cases gs with
  | nil =>
      have hnone := congrArg List.length (Framed.nil_iff.mp hgs)
      have hq := hn.1
      rw [List.length_drop, List.length_take, List.length_nil] at hnone
      omega
  | cons g gs =>
      rw [List.length_cons] at hlength
      omega

theorem unique (hp : FramesEnd bytes n p) (hq : FramesEnd bytes n q) : p = q := by
  rcases Nat.lt_trichotomy p q with hlt | heq | hlt
  · exact absurd (hp.lt_of_lt hq hlt) (Nat.lt_irrefl n)
  · exact heq
  · exact absurd (hq.lt_of_lt hp hlt) (Nat.lt_irrefl n)

theorem le_of_le (hm : FramesEnd bytes m p) (hn : FramesEnd bytes n q) (hmn : m ≤ n) : p ≤ q := by
  by_contra hless
  have := hn.lt_of_lt hm (Nat.lt_of_not_le hless)
  omega

end FramesEnd

/-! ## Fronts of frames -/

namespace Frame

variable {frame : Bytes} {e : Edit} {k : Nat}

theorem announced_ofPayload {payload : Bytes} (hmax : payload.length ≤ maxPayload) :
    announced (ofPayload payload) = payload.length := by
  have hlength : payload.length < Nat.pow 256 4 := Nat.lt_of_le_of_lt hmax (by decide)
  unfold announced ofPayload
  rw [List.append_assoc, List.take_left' (Bytes.length_littleEndian 4 _),
    Bytes.value_littleEndian, Nat.mod_eq_of_lt hlength]

/-- Of a frame that is cut short, either the length is incomplete or it announces more than is
left. -/
theorem Carries.first_take (h : Carries frame e) (hk : k < frame.length) :
    first (frame.take k) = .error .torn := by
  obtain ⟨extra, hmax, rfl⟩ := h
  rw [length_ofPayload] at hk
  rw [first_eq_error_iff]
  unfold Damage.Describes
  rw [List.length_take, length_ofPayload]
  by_cases hhead : k < 4
  · left
    omega
  · right
    have hannounced : announced ((ofPayload (Payload.ofEdit e ++ extra)).take k) =
        (Payload.ofEdit e ++ extra).length := by
      rw [← announced_ofPayload hmax]
      unfold announced
      rw [List.take_take, Nat.min_eq_left (by omega)]
    rw [hannounced]
    omega

end Frame

namespace Recovery

variable {bytes : Bytes} {k n stop : Nat}

theorem framesEnd_validLength (bytes : Bytes) :
    FramesEnd bytes (ofBytes bytes).edits.length (ofBytes bytes).validLength :=
  ⟨validLength_le bytes, _, rfl, intact_iff_framed.mp (intact_take bytes)⟩

theorem exists_framesEnd (hn : n ≤ (ofBytes bytes).edits.length) : ∃ stop, FramesEnd bytes n stop := by
  have hframed := intact_iff_framed.mp (intact_take bytes)
  obtain ⟨stop, hstop, htake⟩ := hframed.exists_take hn
  have hle := validLength_le bytes
  rw [List.length_take] at hstop
  rw [List.take_take, Nat.min_eq_left (by omega)] at htake
  exact ⟨stop, by omega, _, List.length_take_of_le hn, htake⟩

/-- The frames of the bytes that are left are those of all bytes that end by the cut. -/
theorem framesEnd_take_iff : FramesEnd (bytes.take k) n stop ↔ stop ≤ k ∧ FramesEnd bytes n stop := by
  unfold FramesEnd
  rw [List.length_take]
  constructor
  · rintro ⟨hstop, hframed⟩
    rw [List.take_take, Nat.min_eq_left (by omega)] at hframed
    exact ⟨by omega, by omega, hframed⟩
  · rintro ⟨hk, hstop, hframed⟩
    rw [List.take_take, Nat.min_eq_left hk]
    exact ⟨by omega, hframed⟩

theorem le_of_framesEnd (h : FramesEnd bytes n stop) :
    stop ≤ (ofBytes bytes).validLength ∧ n ≤ (ofBytes bytes).edits.length := by
  obtain ⟨hstop, es, rfl, hes⟩ := h
  obtain ⟨hle, hprefix⟩ := framed_take_le hstop hes
  exact ⟨hle, hprefix.length_le⟩

theorem edits_take_isPrefix (bytes : Bytes) (k : Nat) :
    (ofBytes (bytes.take k)).edits <+: (ofBytes bytes).edits := by
  have hframed := intact_iff_framed.mp (intact_take (bytes.take k))
  have hle := validLength_le (bytes.take k)
  rw [List.length_take] at hle
  rw [List.take_take, Nat.min_eq_left (by omega)] at hframed
  exact (framed_take_le (by omega) hframed).2

/-- Of the frames of a batch that were cut off at some byte, the whole ones are recovered. -/
theorem exists_edits_take (batch : List Edit) (k : Nat) :
    ∃ n, (ofBytes ((Frame.ofEdits batch).take k)).edits = batch.take n := by
  have hprefix := edits_take_isPrefix (Frame.ofEdits batch) k
  rw [(Intact.ofEdits batch).edits_eq] at hprefix
  exact ⟨_, List.prefix_iff_eq_take.mp hprefix⟩

/-- The frames that end by the cut are those that are recovered behind it. -/
theorem le_length_edits_take_iff (h : FramesEnd bytes n stop) :
    n ≤ (ofBytes (bytes.take k)).edits.length ↔ stop ≤ k := by
  have hlast := framesEnd_take_iff.mp (framesEnd_validLength (bytes.take k))
  constructor
  · intro hn
    exact Nat.le_trans (h.le_of_le hlast.2 hn) hlast.1
  · intro hstop
    exact (le_of_framesEnd (framesEnd_take_iff.mpr ⟨hstop, h⟩)).2

theorem isGreatest_validLength_take (bytes : Bytes) (k : Nat) :
    IsGreatest {p | p ≤ k ∧ ∃ n, FramesEnd bytes n p} (ofBytes (bytes.take k)).validLength := by
  have hlast := framesEnd_take_iff.mp (framesEnd_validLength (bytes.take k))
  constructor
  · exact ⟨hlast.1, _, hlast.2⟩
  · rintro p ⟨hp, n, hn⟩
    exact (le_of_framesEnd (framesEnd_take_iff.mpr ⟨hp, hn⟩)).1

theorem damage_take_eq_none_iff (hk : k ≤ bytes.length) :
    (ofBytes (bytes.take k)).damage = none ↔ ∃ n, FramesEnd bytes n k := by
  have hgreatest := isGreatest_validLength_take bytes k
  rw [damage_eq_none_iff, List.length_take_of_le hk]
  constructor
  · intro hwhole
    rw [hwhole] at hgreatest
    exact hgreatest.1.2
  · intro hboundary
    exact Nat.le_antisymm hgreatest.1.1 (hgreatest.2 ⟨Nat.le_refl k, hboundary⟩)

/-- A cut through an intact frame leaves its front behind the frames before it. -/
theorem first_drop_take (hk : k < (ofBytes bytes).validLength)
    (hcut : (ofBytes (bytes.take k)).validLength < k) :
    Frame.first ((bytes.take k).drop (ofBytes (bytes.take k)).validLength) = .error .torn := by
  obtain ⟨-, hlast⟩ := framesEnd_take_iff.mp (framesEnd_validLength (bytes.take k))
  generalize (ofBytes (bytes.take k)).validLength = start at hcut hlast ⊢
  have hmore := hlast.lt_of_lt (framesEnd_validLength bytes) (by omega)
  obtain ⟨stop, hstop⟩ := exists_framesEnd (n := (ofBytes (bytes.take k)).edits.length + 1) hmore
  have hbeyond : k < stop := by
    by_contra hwithin
    have := (le_length_edits_take_iff hstop).mpr (Nat.le_of_not_lt hwithin)
    omega
  obtain ⟨gs, hlength, hgs⟩ := hlast.exists_between hstop (by omega)
  obtain ⟨g, rfl⟩ := List.length_eq_one_iff.mp (Nat.add_left_cancel hlength)
  have hfront : (bytes.take k).drop start = ((bytes.take stop).drop start).take (k - start) := by
    rw [List.take_drop, List.take_take]
    congr 2
    omega
  rw [hfront]
  apply hgs.carries.first_take
  have hle := hstop.1
  rw [List.length_drop, List.length_take]
  omega

theorem damage_take_of_inside (hk : k < (ofBytes bytes).validLength)
    (hinside : ¬ ∃ n, FramesEnd bytes n k) : (ofBytes (bytes.take k)).damage = some .torn := by
  have hle := validLength_le bytes
  have hdamaged : (ofBytes (bytes.take k)).damage ≠ none := fun hnone =>
    hinside ((damage_take_eq_none_iff (by omega)).mp hnone)
  obtain ⟨damage, hdamage⟩ := Option.ne_none_iff_exists'.mp hdamaged
  obtain ⟨⟨hlast, hboundary⟩, -⟩ := isGreatest_validLength_take bytes k
  have hcut : (ofBytes (bytes.take k)).validLength < k := by
    apply Nat.lt_of_le_of_ne hlast
    intro heq
    rw [heq] at hboundary
    exact hinside hboundary
  have hfirst := first_rest hdamage
  rw [first_drop_take hk hcut] at hfirst
  rw [hdamage, Except.error.inj hfirst]

/-- Of bytes that are cut off anywhere, the edits are recovered whose frames end by the cut.  These
are all if the cut is behind the intact frames.  If it is in front of their end, what is recovered
goes to the last end of a frame, and the rest is a torn frame or, where the cut is at such an end,
nothing. -/
theorem ofBytes_take_keeps_whole_frames (bytes : Bytes) (k : Nat) :
    let r := ofBytes bytes
    let cut := ofBytes (bytes.take k)
    (∀ n ≤ r.edits.length, ∃! stop, FramesEnd bytes n stop) ∧
      cut.edits <+: r.edits ∧
      (∀ n stop, FramesEnd bytes n stop → (n ≤ cut.edits.length ↔ stop ≤ k)) ∧
      (r.validLength ≤ k → cut.edits = r.edits) ∧
      (k < r.validLength →
        IsGreatest {p | p ≤ k ∧ ∃ n, FramesEnd bytes n p} cut.validLength ∧
        (cut.damage = none ↔ ∃ n, FramesEnd bytes n k) ∧
        ((¬ ∃ n, FramesEnd bytes n k) → cut.damage = some .torn)) := by
  intro r cut
  have hle : r.validLength ≤ bytes.length := validLength_le bytes
  refine ⟨?_, edits_take_isPrefix bytes k, fun n stop => le_length_edits_take_iff, ?_, ?_⟩
  · intro n hn
    obtain ⟨stop, hstop⟩ := exists_framesEnd hn
    exact ⟨stop, hstop, fun other hother => hother.unique hstop⟩
  · intro hall
    have hlength := (le_length_edits_take_iff (framesEnd_validLength bytes)).mpr hall
    exact (edits_take_isPrefix bytes k).eq_of_length_le hlength
  · intro hk
    exact ⟨isGreatest_validLength_take bytes k, damage_take_eq_none_iff (by omega),
      damage_take_of_inside hk⟩

end Recovery

end NurseryRota
