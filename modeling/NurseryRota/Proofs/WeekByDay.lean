import NurseryRota.Proofs.Faultless
import NurseryRota.Validator

/-!
# The week as a whole and day by day

A pass over the week answers the same report whether it validates the week as a whole or each day
on a worker of its own, and it is refused for its size in the same cases.  Under accepted rules
it is refused for no other reason.
-/

namespace NurseryRota.Validator

variable {v : Validator} {source : Source} {scope : Scope} {view : RotaView}

theorem outcome_finish (label : PassScope) (outcome : Except PassError Report) (m : Metrics) :
    (finish label outcome m).1 = outcome := by
  unfold finish
  split <;> rfl

theorem outcome_pass (hview : source scope = .ok view) (label : PassScope)
    (work : RotaView → Except PassError Report) (m : Metrics) :
    (v.pass source scope label work m).1 =
      if v.maxShifts < view.shifts.size then .error .limitExceeded else work view := by
  have hload : v.load source scope label m =
      if v.maxShifts < view.shifts.size then (.error .limitExceeded, m.countFailure label)
      else (.ok view, m) := by
    unfold load
    rw [hview]
  unfold pass
  rw [hload]
  by_cases hlimit : v.maxShifts < view.shifts.size
  · simp [hlimit]
  · simp [hlimit, outcome_finish]

theorem check_eq_ok_iff {roster : Roster} {s : Snapshot} {r : Report} :
    v.check roster s = .ok r ↔ s.validate roster v.rules v.policy = .ok r := by
  unfold check
  exact mapError_eq_ok_iff

theorem checkDay_eq_ok_iff {d : Weekday} {r : Report} :
    v.checkDay view d = .ok r ↔
      (view.shifts.onDay d).validate view.roster v.rules v.policy = .ok r := by
  unfold checkDay
  exact mapError_eq_ok_iff

theorem check_ne_limitExceeded (v : Validator) (roster : Roster) (s : Snapshot) :
    v.check roster s ≠ .error .limitExceeded := by
  unfold check
  cases s.validate roster v.rules v.policy <;> simp [Except.mapError]

theorem checkDay_ne_limitExceeded (v : Validator) (view : RotaView) (d : Weekday) :
    v.checkDay view d ≠ .error .limitExceeded := by
  unfold checkDay
  cases (view.shifts.onDay d).validate view.roster v.rules v.policy <;> simp [Except.mapError]

/-- The report on a view that each day's worker makes its part of. -/
def checkByDay (v : Validator) (view : RotaView) : Except PassError Report := do
  let parts ← Weekday.all.mapM (v.checkDay view)
  let rest ← v.check view.roster view.shifts.undated
  return .merge (parts ++ [rest])

theorem checkByDay_eq_ok_of_checkable (hdistinct : view.shifts.Distinct)
    (hcheck : view.shifts.Checkable view.roster v.rules v.policy) :
    v.checkByDay view = .ok (view.shifts.reportOf view.roster v.rules v.policy) := by
  have hdays : Weekday.all.mapM (v.checkDay view) = .ok (Weekday.all.map fun d =>
      (view.shifts.onDay d).reportOf view.roster v.rules v.policy) := by
    apply mapM_eq_ok
    intro d _
    exact checkDay_eq_ok_iff.mpr
      (Snapshot.validate_eq_ok (Snapshot.checkable_iff_onDay.mp hcheck d))
  have hrest : v.check view.roster view.shifts.undated =
      .ok (view.shifts.undated.reportOf view.roster v.rules v.policy) :=
    check_eq_ok_iff.mpr (Snapshot.validate_eq_ok Snapshot.checkable_undated)
  have hmerge : Report.merge (view.shifts.days.map fun part =>
      part.reportOf view.roster v.rules v.policy) =
        view.shifts.reportOf view.roster v.rules v.policy :=
    Snapshot.merge_reportOf_days hdistinct
  unfold Snapshot.days at hmerge
  rw [List.map_append, List.map_map] at hmerge
  unfold checkByDay
  rw [hdays, hrest]
  exact congrArg Except.ok hmerge

theorem checkable_of_checkByDay (h : Succeeds (v.checkByDay view)) :
    view.shifts.Checkable view.roster v.rules v.policy := by
  rw [Snapshot.checkable_iff_onDay]
  intro d
  have hdays : Succeeds (Weekday.all.mapM (v.checkDay view)) := by
    obtain ⟨r, h⟩ := h
    unfold checkByDay at h
    obtain ⟨parts, hparts, -⟩ := bind_eq_ok_iff.mp h
    exact ⟨parts, hparts⟩
  obtain ⟨r, hday⟩ := succeeds_of_mapM hdays d (Weekday.mem_all d)
  exact Snapshot.checkable_of_validate ⟨r, checkDay_eq_ok_iff.mp hday⟩

theorem checkByDay_eq_ok_iff (hdistinct : view.shifts.Distinct) {r : Report} :
    v.checkByDay view = .ok r ↔ v.check view.roster view.shifts = .ok r := by
  rw [check_eq_ok_iff, Snapshot.validate_eq_ok_iff]
  constructor
  · intro h
    have hcheck := checkable_of_checkByDay ⟨r, h⟩
    rw [checkByDay_eq_ok_of_checkable hdistinct hcheck] at h
    exact ⟨hcheck, (Except.ok.inj h).symm⟩
  · rintro ⟨hcheck, rfl⟩
    exact checkByDay_eq_ok_of_checkable hdistinct hcheck

theorem checkByDay_ne_limitExceeded (v : Validator) (view : RotaView) :
    v.checkByDay view ≠ .error .limitExceeded := by
  have hdays : Weekday.all.mapM (v.checkDay view) ≠ .error .limitExceeded :=
    mapM_ne_error fun d _ => checkDay_ne_limitExceeded v view d
  have hrest := check_ne_limitExceeded v view.roster view.shifts.undated
  unfold checkByDay
  cases hparts : Weekday.all.mapM (v.checkDay view) with
  | error e => simpa [bind, Except.bind, hparts] using hdays
  | ok parts =>
      cases hlast : v.check view.roster view.shifts.undated with
      | error e => simpa [bind, Except.bind, hlast] using hrest
      | ok rest => simp [bind, Except.bind, pure, Except.pure]

theorem outcome_validate (hview : source .all = .ok view) (m : Metrics) :
    (v.validate source m).1 = if v.maxShifts < view.shifts.size then .error .limitExceeded
      else v.check view.roster view.shifts :=
  outcome_pass hview .week _ m

theorem outcome_validateByDay (hview : source .all = .ok view) (m : Metrics) :
    (v.validateByDay source m).1 = if v.maxShifts < view.shifts.size then .error .limitExceeded
      else v.checkByDay view :=
  outcome_pass hview .weekParallel _ m

/-- On bookings with different ids the pass by days and the pass over the whole week answer the
same report, and both are refused for their size exactly when there are more bookings than the
validator takes. -/
theorem validateByDay_agrees (hview : source .all = .ok view) (hdistinct : view.shifts.Distinct)
    (m m' : Metrics) :
    let whole := (v.validate source m).1
    let byDay := (v.validateByDay source m').1
    (∀ r, byDay = .ok r ↔ whole = .ok r) ∧
      (byDay = .error .limitExceeded ↔ v.maxShifts < view.shifts.size) ∧
      (whole = .error .limitExceeded ↔ v.maxShifts < view.shifts.size) ∧
      (v.rules.Accepted → view.shifts.size < capacity 32 → view.shifts.size ≤ v.maxShifts →
        ∃ r, byDay = .ok r ∧ whole = .ok r) := by
  intro whole byDay
  have hwhole : whole = _ := outcome_validate hview m
  have hbyDay : byDay = _ := outcome_validateByDay hview m'
  by_cases hlimit : v.maxShifts < view.shifts.size
  · rw [if_pos hlimit] at hwhole hbyDay
    simp [hwhole, hbyDay, hlimit]
  · rw [if_neg hlimit] at hwhole hbyDay
    rw [hwhole, hbyDay]
    refine ⟨fun r => checkByDay_eq_ok_iff hdistinct, ?_, ?_, ?_⟩
    · simpa [hlimit] using checkByDay_ne_limitExceeded v view
    · simpa [hlimit] using check_ne_limitExceeded v view.roster view.shifts
    · intro hrules hsize _
      have hcheck : view.shifts.Checkable view.roster v.rules v.policy :=
        Snapshot.checkable_of_accepted hrules v.policy hsize
      have hok : v.check view.roster view.shifts =
          .ok (view.shifts.reportOf view.roster v.rules v.policy) :=
        check_eq_ok_iff.mpr (Snapshot.validate_eq_ok hcheck)
      exact ⟨_, (checkByDay_eq_ok_iff hdistinct).mpr hok, hok⟩

/-- A double booking, one on another day, a booking of no day and one of nobody. -/
theorem validateByDay_agrees_two_days :
    let v : Validator := ⟨⟨3, 4, 8⟩, .pooled, 5⟩
    let view : RotaView := ⟨⟨[⟨.ofNat 1, .ofNat 7, 4, 480, 720⟩, ⟨.ofNat 2, .ofNat 7, 0, 540, 600⟩,
        ⟨.ofNat 3, .ofNat 7, 4, 700, 800⟩, ⟨.ofNat 4, .ofNat 7, 9, 480, 720⟩,
        ⟨.ofNat 5, .ofNat 8, 2, 480, 720⟩], by decide⟩,
      (∅ : Roster).insert (.ofNat 7) ⟨.ofNat 3, .staff⟩⟩
    let source : Source := fun _ => .ok view
    ∃ r, (v.validateByDay source .empty).1 = .ok r ∧ (v.validate source .empty).1 = .ok r := by
  intro v view source
  have hview : source .all = .ok view := rfl
  have hdistinct : view.shifts.Distinct := show List.Nodup _ by decide
  have hrules : v.rules.Accepted := by
    intro b
    cases b <;> decide
  exact (validateByDay_agrees hview hdistinct .empty .empty).2.2.2 hrules (by decide) (by decide)

end NurseryRota.Validator
