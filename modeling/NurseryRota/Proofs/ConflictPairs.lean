import Mathlib.Algebra.BigOperators.Fin
import NurseryRota.Proofs.ConflictSweep

/-!
# Conflicts, pair by pair

A conflict can be told from its two shifts without computing it: they are of one member and one day,
its window holds the minutes that both of them cover, and it names first the shift that starts first.
Comparing every pair finds it once for each two places at which such shifts stand, and so does the
sweep, even where the same shift stands at several places.
-/

namespace NurseryRota

/-- The conflict is that of the two shifts, which may stand in either order. -/
structure Conflict.Between (c : Conflict) (a b : Shift) : Prop where
  members : a.member = c.member ∧ b.member = c.member
  days : a.interval.day = c.day ∧ b.interval.day = c.day ∧ c.overlap.day = c.day
  nonempty : c.overlap.start < c.overlap.stop
  covers_iff : ∀ minute, c.overlap.covers minute ↔
    a.interval.covers minute ∧ b.interval.covers minute
  named : (a.startKey ≤ b.startKey ∧ c.first = a.id ∧ c.second = b.id) ∨
    (b.startKey ≤ a.startKey ∧ c.first = b.id ∧ c.second = a.id)

namespace Interval

variable {i j k : Interval}

/-- The overlap of two intervals is the one window that holds their common minutes. -/
theorem intersection_eq_some_iff (hi : i.Valid) (hj : j.Valid) :
    i.intersection j = some k ↔ i.day = j.day ∧ k.day = i.day ∧ k.start < k.stop ∧
      ∀ minute, k.covers minute ↔ i.covers minute ∧ j.covers minute := by
  have hilong := hi.start_lt_stop
  have hjlong := hj.start_lt_stop
  simp only [covers_iff]
  unfold intersection
  constructor
  · intro h
    split at h
    · next hoverlaps =>
        simp only [overlaps, Bool.and_eq_true, decide_eq_true_eq] at hoverlaps
        cases h
        refine ⟨hoverlaps.1.1, rfl, by dsimp only; omega, ?_⟩
        intro minute
        dsimp only
        omega
    · cases h
  · rintro ⟨hday, hkday, hlong, hminutes⟩
    have hfirst := (hminutes k.start).mp ⟨Int.le_refl _, hlong⟩
    have hlast := (hminutes (k.stop - 1)).mp (by omega)
    have hoverlaps : i.overlaps j = true := by
      simp only [overlaps, Bool.and_eq_true, decide_eq_true_eq]
      exact ⟨⟨hday, by omega⟩, by omega⟩
    have hstart := (hminutes (max i.start j.start)).mpr (by omega)
    have hstop := (hminutes (min i.stop j.stop - 1)).mpr (by omega)
    rw [if_pos hoverlaps, Option.some.injEq]
    obtain ⟨day, start, stop⟩ := k
    dsimp only at *
    rw [Interval.mk.injEq]
    exact ⟨hkday.symm, by omega, by omega⟩

end Interval

section Pairs

variable {a b : Shift} {c : Conflict} {shifts : List Shift}

theorem Shift.conflictWith_eq_some_iff_minutes (ha : a.interval.Valid) (hb : b.interval.Valid) :
    a.conflictWith b = some c ↔ (a.member = c.member ∧ c.first = a.id ∧ c.second = b.id) ∧
      (a.interval.day = c.day ∧ b.interval.day = c.day ∧ c.overlap.day = c.day) ∧
      c.overlap.start < c.overlap.stop ∧
      ∀ minute, c.overlap.covers minute ↔ a.interval.covers minute ∧ b.interval.covers minute := by
  obtain ⟨member, day, first, second, overlap⟩ := c
  unfold conflictWith
  simp only [Option.map_eq_some_iff, Interval.intersection_eq_some_iff ha hb, Conflict.mk.injEq]
  constructor
  · rintro ⟨k, ⟨hday, hkday, hlong, hminutes⟩, rfl, rfl, rfl, rfl, rfl⟩
    exact ⟨⟨rfl, rfl, rfl⟩, ⟨rfl, hday.symm, hkday⟩, hlong, hminutes⟩
  · rintro ⟨⟨rfl, rfl, rfl⟩, ⟨rfl, hday, hkday⟩, hlong, hminutes⟩
    exact ⟨overlap, ⟨hday.symm, hkday, hlong, hminutes⟩, rfl, rfl, rfl, rfl, rfl⟩

theorem Conflict.Between.symm (h : c.Between a b) : c.Between b a where
  members := h.members.symm
  days := ⟨h.days.2.1, h.days.1, h.days.2.2⟩
  nonempty := h.nonempty
  covers_iff minute := (h.covers_iff minute).trans and_comm
  named := h.named.symm

theorem Conflict.Between.named_of_startKey_le (h : c.Between a b) (hkey : a.startKey ≤ b.startKey) :
    c.first = a.id ∧ c.second = b.id := by
  rcases h.named with ⟨-, hnames⟩ | ⟨hback, hfirst, hsecond⟩
  · exact hnames
  · have hid := Shift.id_eq_of_startKey_eq (SortKey.antisymm hkey hback)
    exact ⟨hfirst.trans hid.symm, hsecond.trans hid⟩

theorem pairConflict_of_startKey_le (ha : a.interval.Valid) (hb : b.interval.Valid)
    (hkey : a.startKey ≤ b.startKey) : pairConflict a b = some c ↔ c.Between a b := by
  have hpair : pairConflict a b = some c ↔ a.member = b.member ∧ a.conflictWith b = some c := by
    simp [pairConflict_eq_some_iff, hkey]
  rw [hpair, Shift.conflictWith_eq_some_iff_minutes ha hb]
  constructor
  · rintro ⟨hmember, ⟨hnamed, hnames⟩, hdays, hlong, hminutes⟩
    exact ⟨⟨hnamed, hmember.symm.trans hnamed⟩, hdays, hlong, hminutes, Or.inl ⟨hkey, hnames⟩⟩
  · intro h
    exact ⟨h.members.1.trans h.members.2.symm, ⟨h.members.1, h.named_of_startKey_le hkey⟩, h.days,
      h.nonempty, h.covers_iff⟩

theorem pairConflict_eq_some_iff_between (ha : a.interval.Valid) (hb : b.interval.Valid) :
    pairConflict a b = some c ↔ c.Between a b := by
  rcases SortKey.total a.startKey b.startKey with hkey | hkey
  · exact pairConflict_of_startKey_le ha hb hkey
  · rw [pairConflict_comm, pairConflict_of_startKey_le hb ha hkey]
    exact ⟨Conflict.Between.symm, Conflict.Between.symm⟩

end Pairs

/-! ## Places -/

theorem countP_eq_sum {α : Type*} (p : α → Bool) (xs : List α) :
    xs.countP p = ∑ j : Fin xs.length, if p xs[j] then 1 else 0 := by
  induction xs with
  | nil => rfl
  | cons x xs ih =>
      rw [List.countP_cons, ih]
      change _ = ∑ j : Fin (xs.length + 1), if p (x :: xs)[j.val] then 1 else 0
      rw [Fin.sum_univ_succ, Nat.add_comm]
      rfl

/-- Of two places the earlier is the first one of all, or both come behind it. -/
theorem card_places_cons {α : Type*} (x : α) (xs : List α) (r : α → α → Prop) [DecidableRel r] :
    (Finset.univ.filter fun p : Fin (x :: xs).length × Fin (x :: xs).length =>
        p.1 < p.2 ∧ r (x :: xs)[p.1] (x :: xs)[p.2]).card =
      xs.countP (r x) + (Finset.univ.filter fun p : Fin xs.length × Fin xs.length =>
        p.1 < p.2 ∧ r xs[p.1] xs[p.2]).card := by
  simp only [Finset.card_filter, Fintype.sum_prod_type, countP_eq_sum]
  change (∑ i : Fin (xs.length + 1), ∑ j : Fin (xs.length + 1),
    if i < j ∧ r (x :: xs)[i.val] (x :: xs)[j.val] then 1 else 0) = _
  simp only [Fin.sum_univ_succ, Fin.succ_pos, Fin.succ_lt_succ_iff, Fin.val_succ, Fin.val_zero,
    List.getElem_cons_succ, List.getElem_cons_zero, Fin.not_lt_zero, false_and, true_and, if_false,
    Nat.zero_add, decide_eq_true_eq]
  rfl

theorem count_pairwiseConflicts (c : Conflict) (shifts : List Shift) :
    (pairwiseConflicts shifts).count c =
      (Finset.univ.filter fun p : Fin shifts.length × Fin shifts.length =>
        p.1 < p.2 ∧ pairConflict shifts[p.1] shifts[p.2] = some c).card := by
  induction shifts with
  | nil => rfl
  | cons s rest ih =>
      have hfirst : (rest.filterMap (pairConflict s)).count c =
          rest.countP fun b => pairConflict s b = some c := by
        rw [List.count_filterMap]
        apply List.countP_congr
        simp
      rw [pairwiseConflicts, List.count_append, hfirst, ih,
        card_places_cons s rest fun a b => pairConflict a b = some c]

open Classical in
/-- The two places, for all shifts of which it is the conflict. -/
noncomputable def Conflict.places (c : Conflict) (shifts : List Shift) :
    Finset (Fin shifts.length × Fin shifts.length) :=
  Finset.univ.filter fun p => p.1 < p.2 ∧ c.Between shifts[p.1] shifts[p.2]

theorem Conflict.card_places {shifts : List Shift} (hvalid : ∀ s ∈ shifts, s.interval.Valid)
    (c : Conflict) : (c.places shifts).card = (pairwiseConflicts shifts).count c := by
  rw [count_pairwiseConflicts, places]
  congr 1
  ext p
  have hfirst := hvalid shifts[p.1] (List.getElem_mem _)
  have hsecond := hvalid shifts[p.2] (List.getElem_mem _)
  simp only [Finset.mem_filter, pairConflict_eq_some_iff_between hfirst hsecond]

/-- The sweep and the comparison of every pair find the same conflicts equally often, and each as
often as there are two places with shifts of which it is the conflict. -/
theorem conflicts_agree {shifts : List Shift} (hvalid : ∀ s ∈ shifts, s.interval.Valid) :
    (conflicts shifts : Multiset Conflict) = (pairwiseConflicts shifts : Multiset Conflict) ∧
      ∀ c : Conflict, (conflicts shifts).count c = (c.places shifts).card := by
  have hperm := conflicts_perm shifts
  constructor
  · exact Multiset.coe_eq_coe.mpr hperm
  · intro c
    rw [Conflict.card_places hvalid, hperm.count_eq]

/-- A booking that is there three times is in conflict with itself three times; what only touches it
is not, nor is what lasts as long on the next day. -/
theorem conflicts_agree_repeated :
    let s : Shift := ⟨.ofNat 1, .ofNat 7, ⟨.monday, 480, 600⟩⟩
    let shifts := [s, ⟨.ofNat 2, .ofNat 7, ⟨.monday, 600, 700⟩⟩, s,
      ⟨.ofNat 1, .ofNat 7, ⟨.tuesday, 480, 600⟩⟩, s, ⟨.ofNat 3, .ofNat 7, ⟨.monday, 500, 520⟩⟩]
    (conflicts shifts : Multiset Conflict).card = 6 ∧
      (conflicts shifts).count ⟨.ofNat 7, .monday, .ofNat 1, .ofNat 1, ⟨.monday, 480, 600⟩⟩ = 3 ∧
      (conflicts shifts).count ⟨.ofNat 7, .monday, .ofNat 1, .ofNat 3, ⟨.monday, 500, 520⟩⟩ = 3 := by
  intro s shifts
  have hvalid : ∀ s ∈ shifts, s.interval.Valid := by decide
  obtain ⟨hagree, -⟩ := conflicts_agree hvalid
  have hperm := Multiset.coe_eq_coe.mp hagree
  rw [hagree, hperm.count_eq, hperm.count_eq]
  decide +kernel

end NurseryRota
