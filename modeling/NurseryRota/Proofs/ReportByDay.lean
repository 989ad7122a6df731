import Mathlib.Data.List.Nodup
import NurseryRota.Proofs.TeamDay

/-!
# A report by days

The report on a snapshot is the merged report on its days and on the bookings of no day.  The
findings of a day are those of the whole week that lie on it, entry for entry, so the stable
sort of a report puts them back in one order.  Rejections are ordered by the booking they name,
for which the bookings must have different ids.
-/

namespace NurseryRota

/-- Entries may be left out before they are read or after, where what is read of an entry tells
whether to keep it. -/
theorem filterMap_filter_of_agree {α β : Type*} {f g : α → Option β} {keep : α → Bool}
    {keep' : β → Bool} {xs : List α} (hread : ∀ x ∈ xs, keep x = true → g x = f x)
    (hkeep : ∀ x ∈ xs, ∀ y, f x = some y → keep' y = keep x) :
    (xs.filter keep).filterMap g = (xs.filterMap f).filter keep' := by
  rw [List.filterMap_filter, List.filter_filterMap]
  apply List.filterMap_congr
  intro x hx
  cases hfx : f x with
  | none =>
      split
      · next h => simp [hread x hx h, hfx]
      · rfl
  | some y =>
      rw [Option.filter_some, hkeep x hx y hfx]
      split
      · next h => rw [hread x hx h, hfx]
      · rfl

/-! ## Filing -/

namespace Snapshot

variable (s : Snapshot) (roster : Roster)

def filed : List Filed :=
  (s.bookings.map (Booking.file roster)).filterMap
    fun | .ok f => some f | .error _ => none

def refused : List Rejection :=
  (s.bookings.map (Booking.file roster)).filterMap
    fun | .ok _ => none | .error e => some e

def groups : List (ProjectId × List Filed) :=
  stretches (fun f => f.enrolment.project) (sortBy Filed.key (s.filed roster))

theorem teams_ofSnapshot :
    (Intake.ofSnapshot s roster).teams =
      (s.groups roster).map fun g => (g.1, Team.ofFiled g.2) := rfl

end Snapshot

theorem Weekday.toInt_number (d : Weekday) : d.number.toInt = d.rank := by
  cases d <;> decide

theorem Weekday.ofNumber?_eq_some_iff {n : Int} {d : Weekday} :
    ofNumber? n = some d ↔ n = d.rank := by
  constructor
  · intro h
    have := List.find?_some h
    simpa using Eq.symm (of_decide_eq_true this)
  · rintro rfl
    rw [← toInt_number]
    exact ofNumber?_number d

theorem Booking.weekday?_eq_some_iff {b : Booking} {d : Weekday} :
    b.weekday? = some d ↔ b.day = d.number := by
  unfold Booking.weekday?
  rw [Weekday.ofNumber?_eq_some_iff, ← Weekday.toInt_number]
  exact Int16.toInt_inj

theorem Interval.day_of_normalize {day inTime outTime : Int16} {i : Interval}
    (h : normalize day inTime outTime = .ok i) : Weekday.ofNumber? day.toInt = some i.day := by
  unfold normalize at h
  split at h
  · cases h
  · next d hd =>
      repeat' split at h
      all_goals cases h
      exact hd

namespace Booking

theorem file_eq_ok_iff {roster : Roster} {b : Booking} {f : Filed} :
    b.file roster = .ok f ↔
      ∃ i m, b.normalize = .ok i ∧ roster.get? b.member = some m ∧
        f = ⟨m, ⟨b.id, b.member, i⟩⟩ := by
  unfold file toShift
  cases hnormal : b.normalize with
  | error e => simp
  | ok i =>
      cases hmember : roster.get? b.member with
      | none => simp
      | some m => simp [eq_comm]

theorem weekday?_of_file {roster : Roster} {b : Booking} {f : Filed}
    (h : b.file roster = .ok f) : b.weekday? = some f.shift.interval.day := by
  obtain ⟨i, m, hnormal, -, rfl⟩ := file_eq_ok_iff.mp h
  exact Interval.day_of_normalize hnormal

theorem file_congr {roster roster' : Roster} {b : Booking}
    (h : roster.get? b.member = roster'.get? b.member) : b.file roster = b.file roster' := by
  unfold file
  rw [h]

theorem exists_reject_of_file_error {roster : Roster} {b : Booking} {e : Rejection}
    (h : b.file roster = .error e) : ∃ reason, e = b.reject reason := by
  unfold file toShift at h
  cases hnormal : b.normalize with
  | error cause =>
      rw [hnormal] at h
      cases h
      exact ⟨_, rfl⟩
  | ok i =>
      rw [hnormal] at h
      cases hmember : roster.get? b.member with
      | none =>
          rw [hmember] at h
          cases h
          exact ⟨_, rfl⟩
      | some m =>
          rw [hmember] at h
          cases h

theorem id_of_file_error {roster : Roster} {b : Booking} {e : Rejection}
    (h : b.file roster = .error e) : e.shift = b.id := by
  obtain ⟨reason, rfl⟩ := exists_reject_of_file_error h
  rfl

theorem member_of_file_error {roster : Roster} {b : Booking} {e : Rejection}
    (h : b.file roster = .error e) : e.member = b.member := by
  obtain ⟨reason, rfl⟩ := exists_reject_of_file_error h
  rfl

end Booking

namespace Snapshot

variable {s : Snapshot} {roster : Roster}

theorem mem_filed {f : Filed} :
    f ∈ s.filed roster ↔ ∃ b ∈ s.bookings, b.file roster = .ok f := by
  simp only [filed, List.mem_filterMap, List.mem_map, exists_exists_and_eq_and]
  constructor
  · rintro ⟨b, hb, h⟩
    refine ⟨b, hb, ?_⟩
    split at h
    · next g hg =>
        cases h
        exact hg
    · cases h
  · rintro ⟨b, hb, h⟩
    exact ⟨b, hb, by rw [h]⟩

theorem mem_refused {e : Rejection} :
    e ∈ s.refused roster ↔ ∃ b ∈ s.bookings, b.file roster = .error e := by
  simp only [refused, List.mem_filterMap, List.mem_map, exists_exists_and_eq_and]
  constructor
  · rintro ⟨b, hb, h⟩
    refine ⟨b, hb, ?_⟩
    split at h
    · cases h
    · next g hg =>
        cases h
        exact hg
  · rintro ⟨b, hb, h⟩
    exact ⟨b, hb, by rw [h]⟩

theorem size_filter_le (s : Snapshot) (keep : Booking → Bool) : (s.filter keep).size ≤ s.size :=
  List.length_filter_le _ _

section Filter

variable {roster' : Roster} {keep : Booking → Bool}
  (hroster : ∀ b ∈ s.bookings, keep b = true → roster'.get? b.member = roster.get? b.member)

include hroster

theorem filed_filter {keep' : Filed → Bool}
    (hkeep : ∀ b ∈ s.bookings, ∀ f, b.file roster = .ok f → keep' f = keep b) :
    (s.filter keep).filed roster' = (s.filed roster).filter keep' := by
  unfold filed
  rw [List.filterMap_map, List.filterMap_map]
  apply filterMap_filter_of_agree
  · intro b hb hkept
    simp only [Function.comp_apply, Booking.file_congr (hroster b hb hkept)]
  · intro b hb f hf
    cases hfile : b.file roster with
    | error e => simp [hfile] at hf
    | ok k =>
        simp only [Function.comp_apply, hfile, Option.some.injEq] at hf
        exact hkeep b hb f (hf ▸ hfile)

theorem refused_filter {keep' : Rejection → Bool}
    (hkeep : ∀ b ∈ s.bookings, ∀ e, b.file roster = .error e → keep' e = keep b) :
    (s.filter keep).refused roster' = (s.refused roster).filter keep' := by
  unfold refused
  rw [List.filterMap_map, List.filterMap_map]
  apply filterMap_filter_of_agree
  · intro b hb hkept
    simp only [Function.comp_apply, Booking.file_congr (hroster b hb hkept)]
  · intro b hb e he
    cases hfile : b.file roster with
    | ok k => simp [hfile] at he
    | error k =>
        simp only [Function.comp_apply, hfile, Option.some.injEq] at he
        exact hkeep b hb e (he ▸ hfile)

end Filter

theorem filed_onDay (s : Snapshot) (roster : Roster) (d : Weekday) :
    (s.onDay d).filed roster = (s.filed roster).filter fun f => f.shift.interval.day = d := by
  refine filed_filter (fun _ _ _ => rfl) ?_
  intro b _ f hfile
  have hday := Booking.weekday?_eq_some_iff (b := b) (d := d)
  rw [Booking.weekday?_of_file hfile, Option.some.injEq] at hday
  exact decide_eq_decide.mpr hday

theorem filed_undated (s : Snapshot) (roster : Roster) : s.undated.filed roster = [] := by
  rw [List.eq_nil_iff_forall_not_mem]
  intro f hf
  obtain ⟨b, hb, hfile⟩ := mem_filed.mp hf
  have hnone : b.weekday? = none := by
    simpa [undated, filter] using (List.mem_filter.mp hb).2
  rw [Booking.weekday?_of_file hfile] at hnone
  cases hnone

theorem projectRank_injective :
    Function.Injective fun p : ProjectId => (⟨[p.rank]⟩ : SortKey) := by
  intro p q h
  simp only [SortKey.mk.injEq, List.cons.injEq, and_true] at h
  exact Uuid.rank_inj.mp h

theorem labelsAscend_project (fs : List Filed) :
    LabelsAscend (fun f => f.enrolment.project) (fun p => ⟨[p.rank]⟩) (sortBy Filed.key fs) :=
  pairwise_sortBy Filed.key fs

end Snapshot

/-! ## Findings -/

namespace Team

variable (t : Team) (project : ProjectId) (rules : Rules) (policy : Policy)

def shortagesOn (d : Weekday) : List Shortage :=
  match t.shortages project rules policy d with
  | .ok vs => vs
  | .error _ => []

def findings : List Finding :=
  (conflicts t.staff).map .conflict ++
    (Weekday.all.flatMap (t.shortagesOn project rules policy)).map .shortage

/-- The team's week can be checked: no day of it meets a fault. -/
def Checkable : Prop := ∀ d, Succeeds (t.shortages project rules policy d)

variable {t project rules policy}

theorem shortages_eq_of_succeeds {d : Weekday}
    (h : Succeeds (t.shortages project rules policy d)) :
    t.shortages project rules policy d = .ok (t.shortagesOn project rules policy d) := by
  obtain ⟨vs, h⟩ := h
  unfold shortagesOn
  rw [h]

theorem shortagesOn_of_coverage {d : Weekday} {slices : List Slice}
    (h : t.coverage rules policy d = .ok slices) :
    t.shortagesOn project rules policy d = Shortage.collect project none slices := by
  unfold shortagesOn shortages
  rw [h]
  rfl

theorem assemble_eq_ok (h : t.Checkable project rules policy) :
    t.assemble project rules policy = .ok (.ofEntries (t.findings project rules policy) []) := by
  unfold assemble
  rw [mapM_eq_ok fun d _ => shortages_eq_of_succeeds (h d)]
  simp [bind, Except.bind, pure, Except.pure, findings, List.flatMap]

theorem checkable_of_assemble (h : Succeeds (t.assemble project rules policy)) :
    t.Checkable project rules policy := by
  intro d
  obtain ⟨r, h⟩ := h
  unfold assemble at h
  obtain ⟨vs, hweek, -⟩ := bind_eq_ok_iff.mp h
  exact succeeds_of_mapM ⟨vs, hweek⟩ d (Weekday.mem_all d)

theorem day_of_mem_shortagesOn {d : Weekday} :
    ∀ v ∈ t.shortagesOn project rules policy d, v.window.day = d := by
  unfold shortagesOn
  split
  · next vs h => exact day_of_mem_shortages h
  · simp

theorem project_of_mem_shortagesOn {d : Weekday} :
    ∀ v ∈ t.shortagesOn project rules policy d, v.project = project := by
  unfold shortagesOn
  split
  · next vs h => exact project_of_mem_shortages h
  · simp

theorem findings_onDay (d : Weekday) :
    (t.onDay d).findings project rules policy =
      (t.findings project rules policy).filter fun f => f.window.day = d := by
  have hself : (t.onDay d).shortagesOn project rules policy d =
      t.shortagesOn project rules policy d := by
    unfold shortagesOn
    rw [shortages_onDay_self]
  have hothers : ∀ e, e ≠ d → (t.onDay d).shortagesOn project rules policy e = [] := by
    intro e he
    unfold shortagesOn
    rw [shortages_onDay_of_ne project rules policy t (Ne.symm he)]
  have hweek : (Weekday.all.flatMap (t.shortagesOn project rules policy)).filter
      (fun v => decide (v.window.day = d)) = t.shortagesOn project rules policy d := by
    rw [List.filter_flatMap, Weekday.flatMap_all d]
    · rw [List.filter_eq_self]
      intro v hv
      simpa using day_of_mem_shortagesOn v hv
    · intro e he
      rw [List.filter_eq_nil_iff]
      intro v hv
      rw [day_of_mem_shortagesOn v hv]
      simpa using he
  have hstaff : (t.onDay d).staff = t.staff.filter fun s => s.interval.day = d := rfl
  unfold findings
  rw [List.filter_append, List.filter_map, List.filter_map, Weekday.flatMap_all d hothers, hself,
    hstaff, conflicts_filter_day]
  congr 2
  exact hweek.symm

theorem checkable_onDay (d : Weekday) :
    (t.onDay d).Checkable project rules policy ↔
      Succeeds (t.shortages project rules policy d) := by
  constructor
  · intro h
    rw [← shortages_onDay_self]
    exact h d
  · intro h e
    by_cases he : e = d
    · subst he
      rw [shortages_onDay_self]
      exact h
    · rw [shortages_onDay_of_ne project rules policy t (Ne.symm he)]
      exact succeeds_ok []

theorem changes_nobody (d : Weekday) : (ofFiled []).changes d = [] := changes_eq_nil rfl

theorem findings_nobody : (ofFiled []).findings project rules policy = [] := by
  have hweek : Weekday.all.flatMap ((ofFiled []).shortagesOn project rules policy) = [] := by
    rw [List.flatMap_eq_nil_iff]
    intro d _
    unfold shortagesOn
    rw [shortages_of_changes_eq_nil project rules policy (changes_nobody d)]
  unfold findings
  rw [hweek, show (ofFiled []).staff = [] from rfl, conflicts_nil]
  rfl

theorem ofFiled_filter (fs : List Filed) (keep : Shift → Bool) :
    ofFiled (fs.filter fun f => keep f.shift) =
      ⟨(ofFiled fs).staff.filter keep, (ofFiled fs).children.filter fun a => keep a.shift⟩ := by
  unfold ofFiled
  congr 1
  · apply filterMap_filter_of_agree (fun _ _ _ => rfl)
    intro f _ shift hf
    cases hrole : f.enrolment.role <;> simp [Filed.staff?, hrole] at hf
    rw [hf]
  · apply filterMap_filter_of_agree (fun _ _ _ => rfl)
    intro f _ child hf
    cases hrole : f.enrolment.role <;> simp [Filed.child?, hrole] at hf
    rw [← hf]

theorem ofFiled_filter_day (fs : List Filed) (d : Weekday) :
    ofFiled (fs.filter fun f => f.shift.interval.day = d) = (ofFiled fs).onDay d :=
  ofFiled_filter fs fun s => s.interval.day = d

end Team

/-! ## Reports -/

namespace Report

theorem merge_map_ofEntries {α : Type*} (findings : α → List Finding)
    (rejected : α → List Rejection) (parts : List α) :
    merge (parts.map fun p => ofEntries (findings p) (rejected p)) =
      ofEntries (parts.flatMap findings) (parts.flatMap rejected) := by
  unfold merge
  rw [List.flatMap_map, List.flatMap_map]
  unfold ofEntries
  rw [sortBy_flatMap_sortBy, sortBy_flatMap_sortBy]

theorem addRejections_ofEntries (findings : List Finding) (rejected more : List Rejection) :
    (ofEntries findings rejected).addRejections more = ofEntries findings (rejected ++ more) := by
  unfold addRejections ofEntries
  rw [sortBy_of_pairwise (pairwise_sortBy Finding.key findings),
    sortBy_append_congr (sortBy_of_pairwise (pairwise_sortBy Rejection.key rejected)) rfl]

end Report

namespace Snapshot

variable (s : Snapshot) (roster : Roster) (rules : Rules) (policy : Policy)

def findings : List Finding :=
  (s.groups roster).flatMap fun g => (Team.ofFiled g.2).findings g.1 rules policy

def Checkable : Prop :=
  ∀ g ∈ s.groups roster, (Team.ofFiled g.2).Checkable g.1 rules policy

def reportOf : Report := .ofEntries (s.findings roster rules policy) (s.refused roster)

variable {s roster rules policy}

/-- The reports on the teams of a snapshot make up its report. -/
theorem merge_teams :
    (Report.merge ((Intake.ofSnapshot s roster).teams.map fun t =>
        .ofEntries (t.2.findings t.1 rules policy) [])).addRejections
      (Intake.ofSnapshot s roster).rejected = s.reportOf roster rules policy := by
  have hnone : ((s.groups roster).map fun g => (g.1, Team.ofFiled g.2)).flatMap
      (fun _ => ([] : List Rejection)) = [] := by
    simp
  rw [Report.merge_map_ofEntries, Report.addRejections_ofEntries, teams_ofSnapshot, hnone,
    List.nil_append, List.flatMap_map]
  rfl

theorem validate_eq_ok (h : s.Checkable roster rules policy) :
    s.validate roster rules policy = .ok (s.reportOf roster rules policy) := by
  have hparts : (Intake.ofSnapshot s roster).teams.mapM
      (fun t => t.2.assemble t.1 rules policy) =
        .ok ((Intake.ofSnapshot s roster).teams.map
          fun t => .ofEntries (t.2.findings t.1 rules policy) []) := by
    apply mapM_eq_ok
    intro t ht
    rw [teams_ofSnapshot] at ht
    obtain ⟨g, hg, rfl⟩ := List.mem_map.mp ht
    exact Team.assemble_eq_ok (h g hg)
  unfold validate
  dsimp only
  rw [hparts]
  exact congrArg Except.ok merge_teams

theorem checkable_of_validate (h : Succeeds (s.validate roster rules policy)) :
    s.Checkable roster rules policy := by
  obtain ⟨r, h⟩ := h
  unfold validate at h
  dsimp only at h
  obtain ⟨parts, hparts, -⟩ := bind_eq_ok_iff.mp h
  intro g hg
  have hmem : (g.1, Team.ofFiled g.2) ∈ (Intake.ofSnapshot s roster).teams := by
    rw [teams_ofSnapshot]
    exact List.mem_map_of_mem hg
  have hteam := succeeds_of_mapM ⟨parts, hparts⟩ (g.1, Team.ofFiled g.2) hmem
  exact Team.checkable_of_assemble hteam

theorem validate_eq_ok_iff {r : Report} :
    s.validate roster rules policy = .ok r ↔
      s.Checkable roster rules policy ∧ r = s.reportOf roster rules policy := by
  constructor
  · intro h
    have hcheck := checkable_of_validate ⟨r, h⟩
    rw [validate_eq_ok hcheck] at h
    cases h
    exact ⟨hcheck, rfl⟩
  · rintro ⟨hcheck, rfl⟩
    exact validate_eq_ok hcheck

theorem validate_congr {roster' : Roster}
    (h : ∀ b ∈ s.bookings, roster.get? b.member = roster'.get? b.member) :
    s.validate roster rules policy = s.validate roster' rules policy := by
  have hfile : s.bookings.map (Booking.file roster) = s.bookings.map (Booking.file roster') :=
    List.map_congr_left fun b hb => Booking.file_congr (h b hb)
  unfold validate Intake.ofSnapshot
  dsimp only
  rw [hfile]

/-! ### Days -/

variable (s) in
/-- The snapshot in parts: the seven days, and the bookings of none. -/
def days : List Snapshot := Weekday.all.map s.onDay ++ [s.undated]

theorem groups_onDay (d : Weekday) :
    (s.onDay d).groups roster =
      ((s.groups roster).map fun g => (g.1, g.2.filter fun f => f.shift.interval.day = d)).filter
        fun g => g.2 ≠ [] := by
  unfold groups
  rw [filed_onDay, sortBy_filter,
    stretches_filter projectRank_injective (labelsAscend_project _)]

theorem findings_onDay (d : Weekday) :
    (s.onDay d).findings roster rules policy =
      (s.findings roster rules policy).filter fun f => f.window.day = d := by
  unfold findings groups
  rw [filed_onDay, sortBy_filter,
    flatMap_stretches_filter projectRank_injective (labelsAscend_project _) _
      (fun p fs => (Team.ofFiled fs).findings p rules policy) fun _ => Team.findings_nobody,
    List.filter_flatMap]
  apply List.flatMap_congr
  intro g _
  rw [Team.ofFiled_filter_day, Team.findings_onDay]

theorem groups_undated : s.undated.groups roster = [] := by
  unfold groups
  rw [filed_undated, sortBy_nil]
  rfl

theorem findings_undated : s.undated.findings roster rules policy = [] := by
  unfold findings
  rw [groups_undated]
  rfl

theorem checkable_undated : s.undated.Checkable roster rules policy := by
  unfold Checkable
  rw [groups_undated]
  simp

theorem checkable_iff_onDay :
    s.Checkable roster rules policy ↔ ∀ d, (s.onDay d).Checkable roster rules policy := by
  constructor
  · intro h d g hg
    rw [groups_onDay, List.mem_filter, List.mem_map] at hg
    obtain ⟨⟨g, hg, rfl⟩, -⟩ := hg
    rw [Team.ofFiled_filter_day, Team.checkable_onDay]
    exact h g hg d
  · intro h g hg d
    rw [← Team.shortages_onDay_self, ← Team.ofFiled_filter_day]
    by_cases hempty : g.2.filter (fun f => decide (f.shift.interval.day = d)) = []
    · rw [hempty, Team.shortages_of_changes_eq_nil _ _ _ (Team.changes_nobody d)]
      exact succeeds_ok []
    · have hmem : (g.1, g.2.filter fun f => decide (f.shift.interval.day = d)) ∈
          (s.onDay d).groups roster := by
        rw [groups_onDay, List.mem_filter, List.mem_map]
        exact ⟨⟨g, hg, rfl⟩, by simpa using hempty⟩
      exact h d _ hmem d

theorem day_of_findingKey {f g : Finding} (h : f.key = g.key) : f.window.day = g.window.day := by
  have hhead : f.key.entries.head? = g.key.entries.head? := by rw [h]
  cases f <;> cases g <;>
    exact Weekday.rank_inj.mp (Option.some.inj hhead)

/-- Sorted, the findings of the parts are the findings of the whole. -/
theorem sortBy_findings_days :
    sortBy Finding.key (s.days.flatMap fun part => part.findings roster rules policy) =
      sortBy Finding.key (s.findings roster rules policy) := by
  have hdays : (s.days.flatMap fun part => part.findings roster rules policy) =
      Weekday.all.flatMap fun d =>
        (s.findings roster rules policy).filter fun f => f.window.day = d := by
    unfold days
    rw [List.flatMap_append, List.flatMap_map, List.flatMap_singleton, findings_undated,
      List.append_nil]
    exact List.flatMap_congr fun d _ => findings_onDay d
  rw [hdays]
  exact sortBy_flatMap_filter (fun f g => day_of_findingKey) Weekday.nodup_all
    fun f _ => Weekday.mem_all f.window.day

theorem count_filter_ite (bs : List Booking) (keep : Booking → Bool) (b : Booking) :
    (bs.filter keep).count b = if keep b then bs.count b else 0 := by
  split
  · next h => exact List.count_filter h
  · next h =>
      rw [List.count_eq_zero]
      intro hmem
      exact h (List.mem_filter.mp hmem).2

theorem bookings_perm_days : (s.days.flatMap Snapshot.bookings).Perm s.bookings := by
  rw [List.perm_iff_count]
  intro b
  have hdays : s.days.flatMap Snapshot.bookings =
      (Weekday.all.flatMap fun d => s.bookings.filter fun b => b.day = d.number) ++
        s.bookings.filter fun b => b.weekday? = none := by
    simp [days, onDay, undated, filter, List.flatMap_map]
  rw [hdays, List.count_append, count_filter_ite]
  cases hday : b.weekday? with
  | none =>
      have hnot : ∀ d : Weekday, b.day ≠ d.number := by
        intro d hd
        rw [Booking.weekday?_eq_some_iff.mpr hd] at hday
        cases hday
      have hzero : (Weekday.all.flatMap fun d =>
          s.bookings.filter fun b => decide (b.day = d.number)).count b = 0 := by
        rw [List.count_eq_zero]
        simp [hnot]
      rw [hzero]
      simp
  | some d =>
      have hd := Booking.weekday?_eq_some_iff.mp hday
      have hother : ∀ e : Weekday, e ≠ d → b.day ≠ e.number := by
        rintro e he hbe
        rw [Booking.weekday?_eq_some_iff.mpr hbe] at hday
        exact he (Option.some.inj hday)
      rw [List.count_flatMap]
      have hcounts : ∀ e : Weekday, (s.bookings.filter fun b => decide (b.day = e.number)).count b =
          if e = d then s.bookings.count b else 0 := by
        intro e
        rw [count_filter_ite]
        by_cases he : e = d
        · simp [he, hd]
        · simp [he, hother e he]
      cases d <;> simp [Weekday.all, hcounts, Function.comp_def]

variable (s) in
/-- No two bookings of the snapshot have one id. -/
def Distinct : Prop := (s.bookings.map Booking.id).Nodup

theorem refused_days_perm :
    (s.days.flatMap fun part => part.refused roster).Perm (s.refused roster) := by
  unfold refused
  rw [← List.filterMap_flatMap, ← List.map_flatMap]
  exact ((bookings_perm_days (s := s)).map _).filterMap _

theorem refused_inj (hdistinct : s.Distinct) :
    ∀ a ∈ s.refused roster, ∀ b ∈ s.refused roster, a.key = b.key → a = b := by
  intro a ha b hb hkey
  obtain ⟨x, hx, hfx⟩ := mem_refused.mp ha
  obtain ⟨y, hy, hfy⟩ := mem_refused.mp hb
  simp only [Rejection.key, SortKey.mk.injEq, List.cons.injEq, and_true] at hkey
  have hid : x.id = y.id := by
    rw [← Booking.id_of_file_error hfx, ← Booking.id_of_file_error hfy]
    exact Uuid.rank_inj.mp hkey.1
  have hxy : x = y := List.inj_on_of_nodup_map hdistinct hx hy hid
  subst hxy
  rw [hfx] at hfy
  exact Except.error.inj hfy

/-- The report on a snapshot whose bookings have different ids is the merged report on its
parts. -/
theorem merge_reportOf_days (hdistinct : s.Distinct) :
    Report.merge (s.days.map fun part => part.reportOf roster rules policy) =
      s.reportOf roster rules policy := by
  have hrejected : sortBy Rejection.key (s.days.flatMap fun part => part.refused roster) =
      sortBy Rejection.key (s.refused roster) := by
    symm
    exact sortBy_eq_of_perm (refused_days_perm (s := s)).symm (refused_inj hdistinct)
  unfold reportOf
  rw [Report.merge_map_ofEntries]
  unfold Report.ofEntries
  rw [sortBy_findings_days, hrejected]

end Snapshot

end NurseryRota
