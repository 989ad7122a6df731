import NurseryRota.Proofs.CommandRuns
import NurseryRota.Proofs.GuardedSteps
import NurseryRota.Proofs.PassRestrictions

/-!
# No pass meets a fault

Whatever a source holds, a pass under rules that a configuration may have does its work without
leaving the words it is done in: the work with every step guarded passes all guards and gives the
same report.  A pass is therefore refused for its size, or fails with its source, and for no other
reason; a worker of a day never fails.
-/

namespace NurseryRota

namespace Validator

/-- What a validator can be asked for. -/
inductive Request
  | week
  | project (id : ProjectId)
  | member (id : MemberId)
  | day (d : Weekday)
  | weekByDay
deriving DecidableEq

namespace Request

def scope : Request → Scope
  | week => .all
  | project p => .project p
  | member m => .member m
  | day _ => .all
  | weekByDay => .all

def label : Request → PassScope
  | week => .week
  | project _ => .project
  | member _ => .member
  | day _ => .day
  | weekByDay => .weekParallel

end Request

def answer (v : Validator) (source : Source) : Request → Pass
  | .week => v.validate source
  | .project p => v.validateProject source p
  | .member m => v.validateMember source m
  | .day d => v.validateDay source d
  | .weekByDay => v.validateByDay source

/-- What is done with the view that a request reads. -/
def work (v : Validator) (view : RotaView) : Request → Except PassError Report
  | .week => v.check view.roster view.shifts
  | .project _ => v.check view.roster view.shifts
  | .member m =>
    let intake := Intake.ofSnapshot view.shifts view.roster
    let staff := intake.staff.filter fun s => s.member = m
    .ok (.ofEntries ((conflicts staff).map .conflict) intake.rejected)
  | .day d => v.check view.roster (view.shifts.onDay d)
  | .weekByDay => v.checkByDay view

def guardedCheck (v : Validator) (roster : Roster) (s : Snapshot) : Except Fault Report :=
  s.guardedValidate roster v.rules v.policy

def guardedMember (view : RotaView) (m : MemberId) : Except Fault Report := do
  let intake ← view.shifts.guardedIntake view.roster
  let found ← guardedConflicts (intake.staff.filter fun s => s.member = m)
  return .ofEntries (found.map .conflict) intake.rejected

def guardedByDay (v : Validator) (view : RotaView) : Except Fault Report := do
  let parts ← Weekday.all.mapM fun d => v.guardedCheck view.roster (view.shifts.onDay d)
  let rest ← v.guardedCheck view.roster view.shifts.undated
  return .merge (parts ++ [rest])

/-- The same work with every step guarded. -/
def guardedWork (v : Validator) (view : RotaView) : Request → Except Fault Report
  | .week => v.guardedCheck view.roster view.shifts
  | .project _ => v.guardedCheck view.roster view.shifts
  | .member m => guardedMember view m
  | .day d => v.guardedCheck view.roster (view.shifts.onDay d)
  | .weekByDay => v.guardedByDay view

variable {v : Validator} {source : Source} {scope : Scope} {view : RotaView}

theorem answer_eq (v : Validator) (source : Source) (q : Request) :
    v.answer source q = v.pass source q.scope q.label fun view => v.work view q := by
  cases q <;> rfl

theorem outcome_pass_of_failing {cause : SourceError} (hsource : source scope = .error cause)
    (label : PassScope) (work : RotaView → Except PassError Report) (m : Metrics) :
    (v.pass source scope label work m).1 = .error (.ofSource cause) := by
  unfold pass load
  rw [hsource]

/-! ## The work -/

section Work

variable (hrules : v.rules.Accepted)

include hrules

theorem check_eq_ok {s : Snapshot} (roster : Roster) (hsize : s.size < capacity 32) :
    v.check roster s = .ok (s.reportOf roster v.rules v.policy) :=
  check_eq_ok_iff.mpr
    (Snapshot.validate_eq_ok (Snapshot.checkable_of_accepted hrules v.policy hsize))

theorem guardedCheck_eq_ok {s : Snapshot} (roster : Roster) (hsize : s.size < capacity 32) :
    v.guardedCheck roster s = .ok (s.reportOf roster v.rules v.policy) :=
  Snapshot.guardedValidate_eq_ok hrules v.policy hsize

theorem exists_guarded_check {s : Snapshot} (roster : Roster) (hsize : s.size < capacity 32) :
    ∃ r, v.guardedCheck roster s = .ok r ∧ v.check roster s = .ok r :=
  ⟨_, guardedCheck_eq_ok hrules roster hsize, check_eq_ok hrules roster hsize⟩

theorem exists_guarded_checkByDay (hsize : view.shifts.size < capacity 32) :
    ∃ r, v.guardedByDay view = .ok r ∧ v.checkByDay view = .ok r := by
  have hday : ∀ d, (view.shifts.onDay d).size < capacity 32 := fun d =>
    Nat.lt_of_le_of_lt (view.shifts.size_filter_le _) hsize
  have hundated : view.shifts.undated.size < capacity 32 :=
    Nat.lt_of_le_of_lt (view.shifts.size_filter_le _) hsize
  let reports := Weekday.all.map fun d =>
    (view.shifts.onDay d).reportOf view.roster v.rules v.policy
  have hguarded : Weekday.all.mapM (fun d => v.guardedCheck view.roster (view.shifts.onDay d)) =
      .ok reports := mapM_eq_ok fun d _ => guardedCheck_eq_ok hrules view.roster (hday d)
  have hworkers : Weekday.all.mapM (v.checkDay view) = .ok reports :=
    mapM_eq_ok fun d _ => checkDay_eq_ok_iff.mpr
      (check_eq_ok_iff.mp (check_eq_ok hrules view.roster (hday d)))
  refine ⟨.merge (reports ++ [view.shifts.undated.reportOf view.roster v.rules v.policy]), ?_, ?_⟩
  · unfold guardedByDay
    rw [hguarded, ok_bind, guardedCheck_eq_ok hrules view.roster hundated]
    rfl
  · unfold checkByDay
    rw [hworkers, ok_bind, check_eq_ok hrules view.roster hundated]
    rfl

end Work

theorem exists_guarded_member (v : Validator) (view : RotaView) (m : MemberId) :
    ∃ r, guardedMember view m = .ok r ∧ v.work view (.member m) = .ok r := by
  have hvalid : ∀ s ∈ (Intake.ofSnapshot view.shifts view.roster).staff.filter
      (fun s => decide (s.member = m)), s.interval.Valid := by
    intro s hs
    have hstaff := List.mem_of_mem_filter hs
    rw [Intake.staff_ofSnapshot] at hstaff
    obtain ⟨f, hf, -, rfl⟩ := Team.mem_staff_ofFiled.mp hstaff
    exact Snapshot.valid_of_mem_filed f (mem_sortBy.mp hf)
  refine ⟨_, ?_, rfl⟩
  unfold guardedMember
  rw [Snapshot.guardedIntake_eq_ok, ok_bind, guardedConflicts_eq_ok hvalid]
  rfl

theorem exists_guarded_work (hrules : v.rules.Accepted) (hsize : view.shifts.size < capacity 32)
    (q : Request) : ∃ r, v.guardedWork view q = .ok r ∧ v.work view q = .ok r := by
  cases q with
  | week => exact exists_guarded_check hrules view.roster hsize
  | project p => exact exists_guarded_check hrules view.roster hsize
  | member m => exact exists_guarded_member v view m
  | day d =>
      have hday : (view.shifts.onDay d).size < capacity 32 :=
        Nat.lt_of_le_of_lt (view.shifts.size_filter_le _) hsize
      exact exists_guarded_check hrules view.roster hday
  | weekByDay => exact exists_guarded_checkByDay hrules hsize

/-! ## The passes -/

theorem ofSource_ne_fault (cause : SourceError) (fault : Fault) :
    PassError.ofSource cause ≠ .workerFailed fault ∧ PassError.ofSource cause ≠ .stopped fault := by
  cases cause <;> simp [PassError.ofSource]

/-- Under the standard rules, and under all that a rules document may state, every snapshot of fewer
than `2 ^ 32` bookings passes all guards; so does every pass over a source that answers with one,
and no pass ends with a fault, of a worker or otherwise. -/
theorem passes_never_fault (v : Validator)
    (hrules : v.rules = .standard ∨ ∃ text, Rules.parse text = .ok v.rules) :
    (∀ (s : Snapshot) (roster : Roster), s.size < capacity 32 →
        ∃ r, s.guardedValidate roster v.rules v.policy = .ok r ∧
          s.validate roster v.rules v.policy = .ok r) ∧
      ∀ (source : Source) (q : Request) (m : Metrics),
        (∀ view, source q.scope = .ok view → view.shifts.size < capacity 32) →
          (∀ view, source q.scope = .ok view → ∃ r, v.guardedWork view q = .ok r ∧
            (v.answer source q m).1 =
              if v.maxShifts < view.shifts.size then .error .limitExceeded else .ok r) ∧
          ∀ fault, (v.answer source q m).1 ≠ .error (.workerFailed fault) ∧
            (v.answer source q m).1 ≠ .error (.stopped fault) := by
  have haccepted : v.rules.Accepted := by
    rcases hrules with hstandard | ⟨text, hparse⟩
    · rw [hstandard]
      exact Rules.accepted_standard
    · exact Rules.accepted_of_parse hparse
  constructor
  · intro s roster hsize
    obtain ⟨r, hguarded, hcheck⟩ := exists_guarded_check haccepted roster hsize
    exact ⟨r, hguarded, check_eq_ok_iff.mp hcheck⟩
  · intro source q m hsize
    have hpass : ∀ view, source q.scope = .ok view → ∃ r, v.guardedWork view q = .ok r ∧
        (v.answer source q m).1 =
          if v.maxShifts < view.shifts.size then .error .limitExceeded else .ok r := by
      intro view hview
      obtain ⟨r, hguarded, hwork⟩ := exists_guarded_work haccepted (hsize view hview) q
      refine ⟨r, hguarded, ?_⟩
      rw [answer_eq, outcome_pass hview, hwork]
    refine ⟨hpass, ?_⟩
    intro fault
    cases hsource : source q.scope with
    | error cause =>
        obtain ⟨hworker, hstopped⟩ := ofSource_ne_fault cause fault
        rw [answer_eq, outcome_pass_of_failing hsource]
        exact ⟨fun h => hworker (Except.error.inj h), fun h => hstopped (Except.error.inj h)⟩
    | ok view =>
        obtain ⟨r, -, houtcome⟩ := hpass view hsource
        rw [houtcome]
        split <;> simp

/-- Rules at both ends of their range, and bookings with days and times at the ends of theirs. -/
theorem passes_never_fault_far_bounds :
    let v : Validator := ⟨⟨1, 64, 2⟩, .pooled, 5⟩
    let view : RotaView := ⟨⟨[⟨.ofNat 1, .ofNat 7, 4, 0, 1440⟩, ⟨.ofNat 2, .ofNat 7, 4, 1439, 1440⟩,
        ⟨.ofNat 3, .ofNat 8, 4, 0, 1440⟩, ⟨.ofNat 4, .ofNat 8, -32768, 0, 60⟩,
        ⟨.ofNat 5, .ofNat 9, 6, -32768, 32767⟩], by decide⟩,
      ((∅ : Roster).insert (.ofNat 7) ⟨.ofNat 3, .staff⟩).insert (.ofNat 8)
        ⟨.ofNat 3, .child .twoYearOld⟩⟩
    let source : Source := fun _ => .ok view
    Rules.parse "[1, 64, 2]" = .ok v.rules ∧
      (∃ r, v.guardedWork view .week = .ok r ∧ (v.answer source .week .empty).1 = .ok r) ∧
      (∃ r, v.guardedWork view .weekByDay = .ok r ∧
        (v.answer source .weekByDay .empty).1 = .ok r) ∧
      ∀ fault, (v.answer source .weekByDay .empty).1 ≠ .error (.workerFailed fault) := by
  intro v view source
  have hparse : Rules.parse "[1, 64, 2]" = .ok v.rules := rfl
  have hsize : ∀ q : Request, ∀ w, source q.scope = .ok w → w.shifts.size < capacity 32 := by
    intro q w hw
    obtain rfl : view = w := Except.ok.inj hw
    show 5 < capacity 32
    decide
  have hpasses := (passes_never_fault v (Or.inr ⟨_, hparse⟩)).2 source
  obtain ⟨hweek, -⟩ := hpasses .week .empty (hsize .week)
  obtain ⟨hbyDay, hfault⟩ := hpasses .weekByDay .empty (hsize .weekByDay)
  exact ⟨hparse, hweek view rfl, hbyDay view rfl, fun fault => (hfault fault).1⟩

end Validator

end NurseryRota
