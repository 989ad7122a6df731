import Mathlib.Data.List.Perm.Basic
import NurseryRota.Proofs.TeamDay

/-!
# The sweep finds every conflict once

Comparing every pair of shifts gives the same conflicts in whatever order the shifts stand, so it
may be done for each member's day on its own.  Within a day the sweep compares a shift with those
that still run when it starts; the others end too early to overlap it or anything later.
-/

namespace NurseryRota

/-! ## Pairs -/

theorem Shift.conflictWith_eq_some_iff {a b : Shift} {c : Conflict} :
    a.conflictWith b = some c ↔ a.interval.overlaps b.interval ∧
      c = ⟨a.member, a.interval.day, a.id, b.id,
        ⟨a.interval.day, max a.interval.start b.interval.start,
          min a.interval.stop b.interval.stop⟩⟩ := by
  unfold conflictWith Interval.intersection
  by_cases hoverlaps : a.interval.overlaps b.interval
  · simp [hoverlaps, eq_comm]
  · simp [hoverlaps]

theorem Shift.conflictWith_comm {a b : Shift} (hmember : a.member = b.member) (hid : a.id = b.id) :
    a.conflictWith b = b.conflictWith a := by
  unfold conflictWith Interval.intersection Interval.overlaps
  by_cases hday : a.interval.day = b.interval.day
  · simp [hday, hmember, hid, Int.max_comm, Int.min_comm, and_comm]
  · simp [hday, Ne.symm hday]

theorem Shift.id_eq_of_startKey_eq {a b : Shift} (h : a.startKey = b.startKey) : a.id = b.id := by
  simp only [startKey, SortKey.mk.injEq, List.cons.injEq, and_true] at h
  exact Uuid.rank_inj.mp h.2

theorem pairConflict_comm (a b : Shift) : pairConflict a b = pairConflict b a := by
  unfold pairConflict
  by_cases hmember : a.member = b.member
  · rw [if_pos hmember, if_pos hmember.symm]
    by_cases hab : a.startKey ≤ b.startKey
    · by_cases hba : b.startKey ≤ a.startKey
      · have hkey : a.startKey = b.startKey := SortKey.antisymm hab hba
        have hid := Shift.id_eq_of_startKey_eq hkey
        rw [if_pos hab, if_pos hba, Shift.conflictWith_comm hmember hid]
      · rw [if_pos hab, if_neg hba]
    · rw [if_neg hab, if_pos ((SortKey.total _ _).resolve_left hab)]
  · rw [if_neg hmember, if_neg fun h => hmember h.symm]

theorem pairConflict_of_memberDay_ne {a b : Shift} (h : a.memberDay ≠ b.memberDay) :
    pairConflict a b = none := by
  unfold pairConflict
  by_cases hmember : a.member = b.member
  · have hday : a.interval.day ≠ b.interval.day := fun hday => h (by
      simp [Shift.memberDay, hmember, hday])
    simp [Shift.conflictWith, Interval.intersection, Interval.overlaps, hday, Ne.symm hday]
  · rw [if_neg hmember]

theorem pairwiseConflicts_perm {xs ys : List Shift} (h : xs.Perm ys) :
    (pairwiseConflicts xs).Perm (pairwiseConflicts ys) := by
  induction h with
  | nil => exact .nil
  | cons x h ih => exact (h.filterMap _).append ih
  | swap x y l =>
      simp only [pairwiseConflicts, List.filterMap_cons, pairConflict_comm x y]
      cases pairConflict y x with
      | none =>
          simp only [← List.append_assoc]
          exact List.perm_append_comm.append_right _
      | some c =>
          simp only [List.cons_append, ← List.append_assoc]
          exact (List.perm_append_comm.append_right _).cons c
  | trans _ _ ih₁ ih₂ => exact ih₁.trans ih₂

theorem pairwiseConflicts_append_of_apart {xs ys : List Shift}
    (h : ∀ x ∈ xs, ∀ y ∈ ys, x.memberDay ≠ y.memberDay) :
    pairwiseConflicts (xs ++ ys) = pairwiseConflicts xs ++ pairwiseConflicts ys := by
  induction xs with
  | nil => rfl
  | cons x xs ih =>
      have hnone : ys.filterMap (pairConflict x) = [] := by
        rw [List.filterMap_eq_nil_iff]
        intro y hy
        exact pairConflict_of_memberDay_ne (h x (by simp) y hy)
      have hrest := ih fun x' hx' => h x' (by simp [hx'])
      simp [pairwiseConflicts, List.filterMap_append, hnone, hrest]

theorem pairwiseConflicts_flatMap {κ : Type*} {gs : List (κ × List Shift)}
    (h : gs.Pairwise fun g k => ∀ x ∈ g.2, ∀ y ∈ k.2, x.memberDay ≠ y.memberDay) :
    pairwiseConflicts (gs.flatMap Prod.snd) = gs.flatMap fun g => pairwiseConflicts g.2 := by
  induction gs with
  | nil => rfl
  | cons g gs ih =>
      obtain ⟨hg, hgs⟩ := List.pairwise_cons.mp h
      rw [List.flatMap_cons, List.flatMap_cons, pairwiseConflicts_append_of_apart, ih hgs]
      intro x hx y hy
      obtain ⟨k, hk, hyk⟩ := List.mem_flatMap.mp hy
      exact hg k hk x hx y hyk

/-! ## Sweeps -/

theorem Shift.startKey_le_iff {a b : Shift} : a.startKey ≤ b.startKey ↔
    a.interval.start < b.interval.start ∨
      a.interval.start = b.interval.start ∧ a.id.rank ≤ b.id.rank := by
  unfold startKey
  rw [SortKey.cons_le_cons, SortKey.singleton_le_singleton]

theorem Shift.start_le_of_startKey_le {a b : Shift} (h : a.startKey ≤ b.startKey) :
    a.interval.start ≤ b.interval.start := by
  rcases Shift.startKey_le_iff.mp h with hlt | ⟨heq, -⟩
  · exact Int.le_of_lt hlt
  · exact Int.le_of_eq heq

theorem pairConflict_of_ended {a s : Shift} (h : a.interval.stop ≤ s.interval.start) :
    pairConflict a s = none := by
  have hended : ¬ s.interval.start < a.interval.stop := Int.not_lt.mpr h
  simp [pairConflict, Shift.conflictWith, Interval.intersection, Interval.overlaps, hended]

/-- A sweep is about to take the shifts: they are of one member and in order, behind those that
are still active, and none of these ends beyond the reach. -/
structure Sweeping (active : List Shift) (reach : Int) (shifts : List Shift) : Prop where
  sorted : (active ++ shifts).Pairwise fun a b => a.startKey ≤ b.startKey
  member : ∀ a ∈ active ++ shifts, ∀ b ∈ active ++ shifts, a.member = b.member
  reached : ∀ a ∈ active, a.interval.stop ≤ reach

/-- The active shifts that still run when another starts. -/
def runningAt (active : List Shift) (reach : Int) (s : Shift) : List Shift :=
  if reach ≤ s.interval.start then []
  else active.filter fun a => s.interval.start < a.interval.stop

section Sweeping

variable {active rest : List Shift} {reach : Int} {s : Shift}

theorem runningAt_sublist (active : List Shift) (reach : Int) (s : Shift) :
    (runningAt active reach s).Sublist active := by
  unfold runningAt
  split
  · exact List.nil_sublist active
  · exact List.filter_sublist

theorem filterMap_runningAt {t : Shift} (hreached : ∀ a ∈ active, a.interval.stop ≤ reach)
    (hstart : s.interval.start ≤ t.interval.start) :
    (runningAt active reach s).filterMap (pairConflict · t) =
      active.filterMap (pairConflict · t) := by
  unfold runningAt
  split
  · next hover =>
      symm
      rw [List.filterMap_nil, List.filterMap_eq_nil_iff]
      intro a ha
      have := hreached a ha
      exact pairConflict_of_ended (by omega)
  · rw [List.filterMap_filter]
    apply List.filterMap_congr
    intro a _
    by_cases hruns : s.interval.start < a.interval.stop
    · simp [hruns]
    · simp [hruns, pairConflict_of_ended (a := a) (s := t) (by omega)]

theorem Sweeping.step (h : Sweeping active reach (s :: rest)) :
    Sweeping (runningAt active reach s ++ [s]) (max reach s.interval.stop) rest := by
  have hsub : (runningAt active reach s ++ [s] ++ rest).Sublist (active ++ s :: rest) := by
    simpa using (runningAt_sublist active reach s).append (List.Sublist.refl (s :: rest))
  constructor
  · exact h.sorted.sublist hsub
  · intro a ha b hb
    exact h.member a (hsub.subset ha) b (hsub.subset hb)
  · intro a ha
    rcases List.mem_append.mp ha with ha | ha
    · have := h.reached a ((runningAt_sublist active reach s).subset ha)
      omega
    · rw [List.mem_singleton.mp ha]
      omega

theorem Sweeping.conflicts_eq (h : Sweeping active reach (s :: rest)) :
    (runningAt active reach s).filterMap (·.conflictWith s) =
      active.filterMap (pairConflict · s) := by
  rw [← filterMap_runningAt h.reached (Int.le_refl s.interval.start)]
  apply List.filterMap_congr
  intro a ha
  have hactive := (runningAt_sublist active reach s).subset ha
  have hmember := h.member a (by simp [hactive]) s (by simp)
  have hkey := (List.pairwise_append.mp h.sorted).2.2 a hactive s (by simp)
  simp [pairConflict, hmember, hkey]

/-- The sweep compares each shift with those before it, and these with the active ones. -/
theorem Sweeping.perm (h : Sweeping active reach rest) :
    (sweepConflicts active reach rest).Perm
      ((rest.flatMap fun t => active.filterMap (pairConflict · t)) ++ pairwiseConflicts rest) := by
  -- A shift that is dropped has ended by `s`, so it conflicts with none of the later ones either.
  induction rest generalizing active reach with
  | nil => exact .refl _
  | cons s rest ih =>
      have hlater : ∀ t ∈ rest, s.interval.start ≤ t.interval.start := fun t ht =>
        Shift.start_le_of_startKey_le
          ((List.pairwise_cons.mp (List.pairwise_append.mp h.sorted).2.1).1 t ht)
      have hactive : (rest.flatMap fun t =>
          (runningAt active reach s ++ [s]).filterMap (pairConflict · t)) =
            rest.flatMap fun t =>
              active.filterMap (pairConflict · t) ++ (pairConflict s t).toList := by
        apply List.flatMap_congr
        intro t ht
        rw [List.filterMap_append, filterMap_runningAt h.reached (hlater t ht)]
        simp [List.filterMap_cons]
        cases pairConflict s t <;> rfl
      have hfirst : rest.filterMap (pairConflict s) =
          rest.flatMap fun t => (pairConflict s t).toList := List.filterMap_eq_flatMap_toList _ _
      have hrest := ih h.step
      rw [hactive] at hrest
      have hsplit := List.flatMap_append_perm rest
        (fun t => active.filterMap (pairConflict · t)) (fun t => (pairConflict s t).toList)
      have hsweep : sweepConflicts active reach (s :: rest) =
          active.filterMap (pairConflict · s) ++
            sweepConflicts (runningAt active reach s ++ [s]) (max reach s.interval.stop) rest := by
        rw [← h.conflicts_eq]
        rfl
      rw [hsweep, List.flatMap_cons, pairwiseConflicts, hfirst, List.append_assoc]
      apply List.Perm.append_left
      rw [← List.append_assoc]
      exact hrest.trans (hsplit.symm.append_right _)

end Sweeping

/-! ## All conflicts -/

theorem Shift.startKey_le_of_sweepKey_le {a b : Shift} (hlabel : a.memberDay = b.memberDay)
    (h : a.sweepKey ≤ b.sweepKey) : a.startKey ≤ b.startKey := by
  obtain ⟨hmember, hday⟩ := Prod.mk.inj hlabel
  simpa [sweepKey, startKey, SortKey.cons_le_cons, hmember, hday] using h

theorem sweeping_of_mem_stretches {shifts : List Shift} :
    ∀ g ∈ stretches Shift.memberDay (sortBy Shift.sweepKey shifts), Sweeping [] 0 g.2 := by
  intro g hg
  have hlabel := label_of_mem_stretches Shift.memberDay _ g hg
  have hmembers := ((mem_stretches_iff Shift.memberDayRank_injective
    (labelsAscend_sweep shifts)).mp hg).2
  have hsorted : g.2.Pairwise fun a b => a.sweepKey ≤ b.sweepKey := by
    rw [hmembers]
    exact (pairwise_sortBy Shift.sweepKey shifts).filter _
  constructor
  · rw [List.nil_append]
    refine hsorted.imp_of_mem ?_
    intro a b ha hb hab
    exact Shift.startKey_le_of_sweepKey_le ((hlabel a ha).trans (hlabel b hb).symm) hab
  · intro a ha b hb
    rw [List.nil_append] at ha hb
    exact congrArg Prod.fst ((hlabel a ha).trans (hlabel b hb).symm)
  · simp

/-- The sweep finds what comparing every pair finds, each conflict as often. -/
theorem conflicts_perm (shifts : List Shift) :
    (conflicts shifts).Perm (pairwiseConflicts shifts) := by
  have hsweeps : (conflicts shifts).Perm
      ((stretches Shift.memberDay (sortBy Shift.sweepKey shifts)).flatMap
        fun g => pairwiseConflicts g.2) := by
    apply List.Perm.flatMap_left
    intro g hg
    have hnone : (g.2.flatMap fun _ => ([] : List Conflict)) = [] :=
      List.flatMap_eq_nil_iff.mpr fun _ _ => rfl
    simpa [hnone] using (sweeping_of_mem_stretches g hg).perm
  have hapart : (stretches Shift.memberDay (sortBy Shift.sweepKey shifts)).Pairwise
      fun g k => ∀ x ∈ g.2, ∀ y ∈ k.2, x.memberDay ≠ y.memberDay := by
    refine (pairwise_stretches Shift.memberDayRank_injective
      (labelsAscend_sweep shifts)).imp_of_mem ?_
    intro g k hg hk hgk x hx y hy hlabel
    have hxg := label_of_mem_stretches Shift.memberDay _ g hg x hx
    have hyk := label_of_mem_stretches Shift.memberDay _ k hk y hy
    exact hgk.2 (hxg.symm.trans (hlabel.trans hyk))
  rw [← pairwiseConflicts_flatMap hapart, flatMap_stretches] at hsweeps
  exact hsweeps.trans (pairwiseConflicts_perm (sortBy_perm Shift.sweepKey shifts))

/-! ## Shifts with different ids -/

theorem exists_pair_of_mem_conflicts {shifts : List Shift} {c : Conflict}
    (hc : c ∈ conflicts shifts) : ∃ a ∈ shifts, ∃ b ∈ shifts, pairConflict a b = some c := by
  have hpairs : c ∈ pairwiseConflicts shifts := (conflicts_perm shifts).mem_iff.mp hc
  clear hc
  induction shifts with
  | nil => simp [pairwiseConflicts] at hpairs
  | cons s rest ih =>
      rcases List.mem_append.mp hpairs with hc | hc
      · obtain ⟨b, hb, hconflict⟩ := List.mem_filterMap.mp hc
        exact ⟨s, by simp, b, by simp [hb], hconflict⟩
      · obtain ⟨a, ha, b, hb, hconflict⟩ := ih hc
        exact ⟨a, by simp [ha], b, by simp [hb], hconflict⟩

section Distinct

variable {shifts : List Shift} {a b : Shift} {c : Conflict}

theorem pairConflict_eq_some_iff : pairConflict a b = some c ↔ a.member = b.member ∧
    ((a.startKey ≤ b.startKey ∧ a.conflictWith b = some c) ∨
      (¬ a.startKey ≤ b.startKey ∧ b.conflictWith a = some c)) := by
  unfold pairConflict
  by_cases hmember : a.member = b.member
  · by_cases hkey : a.startKey ≤ b.startKey
    · simp [hmember, hkey]
    · simp [hmember, hkey]
  · simp [hmember]

theorem ids_of_pairConflict (h : pairConflict a b = some c) :
    (c.first = a.id ∧ c.second = b.id) ∨ (c.first = b.id ∧ c.second = a.id) := by
  rcases (pairConflict_eq_some_iff.mp h).2 with ⟨-, h⟩ | ⟨-, h⟩
  · rw [(Shift.conflictWith_eq_some_iff.mp h).2]
    exact Or.inl ⟨rfl, rfl⟩
  · rw [(Shift.conflictWith_eq_some_iff.mp h).2]
    exact Or.inr ⟨rfl, rfl⟩

theorem mem_pairwiseConflicts_iff (hids : (shifts.map Shift.id).Nodup) :
    c ∈ pairwiseConflicts shifts ↔
      ∃ a ∈ shifts, ∃ b ∈ shifts, a.id ≠ b.id ∧ pairConflict a b = some c := by
  constructor
  · intro hc
    induction shifts with
    | nil => simp [pairwiseConflicts] at hc
    | cons s rest ih =>
        obtain ⟨hs, hrest⟩ := List.nodup_cons.mp hids
        rcases List.mem_append.mp hc with hc | hc
        · obtain ⟨b, hb, hconflict⟩ := List.mem_filterMap.mp hc
          refine ⟨s, by simp, b, by simp [hb], ?_, hconflict⟩
          intro hid
          exact hs (hid ▸ List.mem_map_of_mem hb)
        · obtain ⟨a, ha, b, hb, h⟩ := ih hrest hc
          exact ⟨a, by simp [ha], b, by simp [hb], h⟩
  · rintro ⟨a, ha, b, hb, hid, hconflict⟩
    have hother : b ∈ shifts.erase a := by
      rw [List.mem_erase_of_ne]
      · exact hb
      · rintro rfl
        exact hid rfl
    rw [(pairwiseConflicts_perm (List.perm_cons_erase ha)).mem_iff]
    exact List.mem_append_left _ (List.mem_filterMap.mpr ⟨b, hother, hconflict⟩)

/-- The conflicts of shifts are those of any two of them, named in the order of their starts. -/
theorem mem_conflicts_iff (hids : (shifts.map Shift.id).Nodup) :
    c ∈ conflicts shifts ↔ ∃ a ∈ shifts, ∃ b ∈ shifts, a.id ≠ b.id ∧ a.member = b.member ∧
      a.startKey ≤ b.startKey ∧ a.conflictWith b = some c := by
  rw [(conflicts_perm shifts).mem_iff, mem_pairwiseConflicts_iff hids]
  constructor
  · rintro ⟨a, ha, b, hb, hid, hconflict⟩
    obtain ⟨hmember, ⟨hkey, h⟩ | ⟨hkey, h⟩⟩ := pairConflict_eq_some_iff.mp hconflict
    · exact ⟨a, ha, b, hb, hid, hmember, hkey, h⟩
    · exact ⟨b, hb, a, ha, hid.symm, hmember.symm, (SortKey.total _ _).resolve_left hkey, h⟩
  · rintro ⟨a, ha, b, hb, hid, hmember, hkey, h⟩
    exact ⟨a, ha, b, hb, hid, pairConflict_eq_some_iff.mpr ⟨hmember, Or.inl ⟨hkey, h⟩⟩⟩

theorem nodup_pairwiseConflicts (hids : (shifts.map Shift.id).Nodup) :
    ((pairwiseConflicts shifts).map fun c => (c.first, c.second)).Nodup := by
  induction shifts with
  | nil => exact List.nodup_nil
  | cons s rest ih =>
      obtain ⟨hs, hrest⟩ := List.nodup_cons.mp hids
      rw [pairwiseConflicts, List.map_append, List.nodup_append]
      refine ⟨?_, ih hrest, ?_⟩
      · rw [List.Nodup, List.pairwise_map, List.pairwise_filterMap]
        refine (List.pairwise_map.mp hrest).imp ?_
        intro b b' hne c hc c' hc' hpair
        rcases ids_of_pairConflict hc with ⟨h₁, h₂⟩ | ⟨h₁, h₂⟩ <;>
          rcases ids_of_pairConflict hc' with ⟨h₁', h₂'⟩ | ⟨h₁', h₂'⟩ <;>
          simp_all
      · intro p hp q hq hpq
        obtain ⟨c, hc, rfl⟩ := List.mem_map.mp hp
        obtain ⟨c', hc', rfl⟩ := List.mem_map.mp hq
        obtain ⟨b, hb, hfirst⟩ := List.mem_filterMap.mp hc
        obtain ⟨x, hx, y, hy, -, hother⟩ := (mem_pairwiseConflicts_iff hrest).mp hc'
        have hid : ∀ z ∈ rest, z.id ≠ s.id := fun z hz h => hs (h ▸ List.mem_map_of_mem hz)
        have hnames : c.first = s.id ∨ c.second = s.id :=
          (ids_of_pairConflict hfirst).imp And.left And.right
        have hothers : c'.first ≠ s.id ∧ c'.second ≠ s.id := by
          rcases ids_of_pairConflict hother with ⟨h, h'⟩ | ⟨h, h'⟩
          · exact ⟨h ▸ hid x hx, h' ▸ hid y hy⟩
          · exact ⟨h ▸ hid y hy, h' ▸ hid x hx⟩
        obtain ⟨h₁, h₂⟩ := Prod.mk.inj hpq
        rw [h₁, h₂] at hnames
        exact hnames.elim hothers.1 hothers.2

theorem nodup_conflicts (hids : (shifts.map Shift.id).Nodup) :
    ((conflicts shifts).map fun c => (c.first, c.second)).Nodup :=
  ((conflicts_perm shifts).map _).nodup_iff.mpr (nodup_pairwiseConflicts hids)

end Distinct

end NurseryRota
