import NurseryRota.Proofs.PassSafety

/-!
# Counters account for every pass

A pass ends in one of five ways, and each way has its counts: a report, a source that fails, too many
bookings, a worker's fault, and a fault that stops the pass, which counts nothing.  The counts of a
sequence of passes are therefore those of its outcomes, whatever validators and sources are mixed in
it.
-/

namespace NurseryRota

/-- The error comes back to the caller; a fault that stops the pass does not. -/
def PassError.isReturned : PassError → Bool
  | stopped _ => false
  | _ => true

/-- The error is that of a source which is out of reach or answers with rows that mean nothing. -/
def PassError.isSourceFailure : PassError → Bool
  | storageUnavailable _ => true
  | malformedData _ => true
  | _ => false

theorem PassError.isReturned_ofSource (cause : SourceError) :
    (ofSource cause).isReturned = true := by
  cases cause <;> rfl

theorem PassError.isSourceFailure_ofSource (cause : SourceError) :
    (ofSource cause).isSourceFailure = true := by
  cases cause <;> rfl

def Summary.count (s : Summary) : FindingKind → Nat
  | .conflict => s.conflicts
  | .shortage => s.shortages

namespace Validator

/-- A request to a validator over a source. -/
structure Call where
  validator : Validator
  source : Source
  request : Request

/-- A pass that has ended. -/
structure Ended where
  scope : PassScope
  outcome : Except PassError Report

namespace Ended

def report? : Ended → Option Report
  | ⟨_, .ok r⟩ => some r
  | ⟨_, .error _⟩ => none

/-- A pass of that scope returned a report. -/
def isOk (scope : PassScope) : Ended → Bool
  | ⟨s, .ok _⟩ => s = scope
  | ⟨_, .error _⟩ => false

/-- A pass of that scope returned an error. -/
def isError (scope : PassScope) : Ended → Bool
  | ⟨_, .ok _⟩ => false
  | ⟨s, .error cause⟩ => s = scope && cause.isReturned

def isSourceFailure : Ended → Bool
  | ⟨_, .ok _⟩ => false
  | ⟨_, .error cause⟩ => cause.isSourceFailure

end Ended

def Call.answer (c : Call) : Pass := c.validator.answer c.source c.request

/-- Calls one after another, each with the counters that the one before left. -/
def runCalls : List Call → Metrics → List Ended × Metrics
  | [], m => ([], m)
  | c :: later, m =>
    let (outcome, m) := c.answer m
    let (ended, m) := runCalls later m
    (⟨c.request.label, outcome⟩ :: ended, m)

/-- The passes raised the counters from the first ones to the second ones, each by what it has to
count. -/
structure Accounts (m m' : Metrics) (ended : List Ended) : Prop where
  passed : ∀ scope, m'.value (.validations scope .ok) =
    m.value (.validations scope .ok) + ended.countP (Ended.isOk scope)
  failed : ∀ scope, m'.value (.validations scope .error) =
    m.value (.validations scope .error) + ended.countP (Ended.isError scope)
  timed : ∀ scope, m'.value (.durations scope) =
    m.value (.durations scope) + ended.countP (Ended.isOk scope)
  sourceFailures : m'.value .storeFailures =
    m.value .storeFailures + ended.countP Ended.isSourceFailure
  found : ∀ kind, m'.value (.findings kind) =
    m.value (.findings kind) + ((ended.filterMap Ended.report?).map fun r => r.summary.count kind).sum
  rejected : m'.value .rejectedShifts =
    m.value .rejectedShifts + ((ended.filterMap Ended.report?).map fun r => r.summary.rejected).sum

variable {m m' m'' : Metrics} {ended later : List Ended}

theorem Accounts.nil (m : Metrics) : Accounts m m [] := by
  constructor <;> simp

theorem Accounts.append (h : Accounts m m' ended) (hlater : Accounts m' m'' later) :
    Accounts m m'' (ended ++ later) where
  passed scope := by rw [hlater.passed, h.passed, List.countP_append, Nat.add_assoc]
  failed scope := by rw [hlater.failed, h.failed, List.countP_append, Nat.add_assoc]
  timed scope := by rw [hlater.timed, h.timed, List.countP_append, Nat.add_assoc]
  sourceFailures := by
    rw [hlater.sourceFailures, h.sourceFailures, List.countP_append, Nat.add_assoc]
  found kind := by
    rw [hlater.found, h.found, List.filterMap_append, List.map_append, List.sum_append,
      Nat.add_assoc]
  rejected := by
    rw [hlater.rejected, h.rejected, List.filterMap_append, List.map_append, List.sum_append,
      Nat.add_assoc]

/-! ## One pass -/

/-- The ways in which a pass ends, with the counters that it leaves. -/
inductive Counted (scope : PassScope) (m : Metrics) : Except PassError Report → Metrics → Prop
  | report (r : Report) : Counted scope m (.ok r) (m.countReport scope r)
  | source (cause : SourceError) : Counted scope m (.error (.ofSource cause))
      ((m.add .storeFailures 1).countFailure scope)
  | limit : Counted scope m (.error .limitExceeded) (m.countFailure scope)
  | worker (fault : Fault) : Counted scope m (.error (.workerFailed fault)) (m.countFailure scope)
  | stopped (fault : Fault) : Counted scope m (.error (.stopped fault)) m

theorem accounts_report (scope : PassScope) (m : Metrics) (r : Report) :
    Accounts m (m.countReport scope r) [⟨scope, .ok r⟩] where
  passed _ := by simp [Metrics.countReport, Metrics.value_add, Ended.isOk, eq_comm]
  failed _ := by simp [Metrics.countReport, Metrics.value_add, Ended.isError]
  timed _ := by simp [Metrics.countReport, Metrics.value_add, Ended.isOk, eq_comm]
  sourceFailures := by simp [Metrics.countReport, Metrics.value_add, Ended.isSourceFailure]
  found kind := by
    cases kind <;> simp [Metrics.countReport, Metrics.value_add, Ended.report?, Summary.count]
  rejected := by simp [Metrics.countReport, Metrics.value_add, Ended.report?]

/-- An error raises the counter of its scope if it is returned, that of the sources if one of them
failed, and no other. -/
theorem accounts_error {scope : PassScope} {cause : PassError}
    (hvalue : ∀ s, m'.value s = m.value s +
      (if s = .validations scope .error ∧ cause.isReturned = true then 1 else 0) +
      if s = .storeFailures ∧ cause.isSourceFailure = true then 1 else 0) :
    Accounts m m' [⟨scope, .error cause⟩] := by
  have hnone : [(⟨scope, .error cause⟩ : Ended)].filterMap Ended.report? = [] := rfl
  constructor
  · simp [hvalue, Ended.isOk]
  · intro other
    by_cases hscope : scope = other <;> cases hreturned : cause.isReturned <;>
      simp [hvalue, Ended.isError, hscope, hreturned, Ne.symm]
  · simp [hvalue, Ended.isOk]
  · cases hfailure : cause.isSourceFailure <;> simp [hvalue, Ended.isSourceFailure, hfailure]
  · simp [hvalue, hnone]
  · simp [hvalue, hnone]

theorem Counted.accounts {scope : PassScope} {outcome : Except PassError Report}
    (h : Counted scope m outcome m') : Accounts m m' [⟨scope, outcome⟩] := by
  cases h with
  | report r => exact accounts_report scope m r
  | source cause =>
      apply accounts_error
      intro s
      rw [PassError.isReturned_ofSource, PassError.isSourceFailure_ofSource]
      simp [Metrics.countFailure, Metrics.value_add, Nat.add_right_comm]
  | limit =>
      apply accounts_error
      intro s
      simp [Metrics.countFailure, Metrics.value_add, PassError.isReturned, PassError.isSourceFailure]
  | worker fault =>
      apply accounts_error
      intro s
      simp [Metrics.countFailure, Metrics.value_add, PassError.isReturned, PassError.isSourceFailure]
  | stopped fault =>
      apply accounts_error
      intro s
      simp [PassError.isReturned, PassError.isSourceFailure]

theorem check_eq_error {v : Validator} {roster : Roster} {s : Snapshot} {e : PassError}
    (h : v.check roster s = .error e) : ∃ fault, e = .stopped fault := by
  unfold check at h
  cases hvalidate : s.validate roster v.rules v.policy with
  | ok r => simp [hvalidate, Except.mapError] at h
  | error fault =>
      rw [hvalidate] at h
      exact ⟨fault, (Except.error.inj h).symm⟩

theorem checkDay_eq_error {v : Validator} {view : RotaView} {d : Weekday} {e : PassError}
    (h : v.checkDay view d = .error e) : ∃ fault, e = .workerFailed fault := by
  unfold checkDay at h
  cases hvalidate : (view.shifts.onDay d).validate view.roster v.rules v.policy with
  | ok r => simp [hvalidate, Except.mapError] at h
  | error fault =>
      rw [hvalidate] at h
      exact ⟨fault, (Except.error.inj h).symm⟩

/-- Work that is given up meets a fault, and the fault of a day is its worker's. -/
theorem work_eq_error {v : Validator} {view : RotaView} {q : Request} {e : PassError}
    (h : v.work view q = .error e) : ∃ fault, e = .workerFailed fault ∨ e = .stopped fault := by
  cases q with
  | week => exact (check_eq_error h).imp fun _ => Or.inr
  | project p => exact (check_eq_error h).imp fun _ => Or.inr
  | member m => cases h
  | day d => exact (check_eq_error h).imp fun _ => Or.inr
  | weekByDay =>
      change v.checkByDay view = .error e at h
      unfold checkByDay at h
      rcases bind_eq_error_iff.mp h with hdays | ⟨parts, -, hrest⟩
      · obtain ⟨d, -, hday⟩ := exists_of_mapM_eq_error hdays
        exact (checkDay_eq_error hday).imp fun _ => Or.inl
      · rcases bind_eq_error_iff.mp hrest with hundated | ⟨rest, -, hmerge⟩
        · exact (check_eq_error hundated).imp fun _ => Or.inr
        · cases hmerge

theorem counted_answer (v : Validator) (source : Source) (q : Request) (m : Metrics) :
    Counted q.label m (v.answer source q m).1 (v.answer source q m).2 := by
  rw [answer_eq]
  unfold pass load
  cases hsource : source q.scope with
  | error cause => exact .source cause
  | ok view =>
      dsimp only
      by_cases hlimit : v.maxShifts < view.shifts.size
      · rw [if_pos hlimit]
        exact .limit
      · rw [if_neg hlimit]
        dsimp only
        cases hwork : v.work view q with
        | ok r => exact .report r
        | error e =>
            obtain ⟨fault, rfl | rfl⟩ := work_eq_error hwork
            · exact .worker fault
            · exact .stopped fault

/-! ## Passes one after another -/

/-- After any sequence of passes, whatever the validators and the sources, every counter has grown by
what the outcomes of the passes give it to count. -/
theorem accounts_runCalls (calls : List Call) (m : Metrics) :
    Accounts m (runCalls calls m).2 (runCalls calls m).1 := by
  induction calls generalizing m with
  | nil => exact .nil m
  | cons c later ih =>
      have hfirst := (counted_answer c.validator c.source c.request m).accounts
      exact hfirst.append (ih (c.answer m).2)

end Validator

end NurseryRota
