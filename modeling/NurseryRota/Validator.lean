import NurseryRota.Metrics
import NurseryRota.Text.Quoted
import NurseryRota.Validation

/-!
# Validation passes

A pass reads a view of the rota from a source, refuses it when it is too large, validates it
and counts how it ended.  The week can be validated as a whole or day by day, each day on a
worker of its own; a worker that meets a fault makes that pass fail, while a fault elsewhere
stops the program.
-/

namespace NurseryRota

inductive SourceError
  | unavailable (cause : String)
  | malformed (cause : String)
deriving DecidableEq, Repr

namespace SourceError

def message : SourceError → String
  | unavailable cause => "store unavailable: " ++ cause
  | malformed cause => "malformed row: " ++ cause

def detail : SourceError → String
  | unavailable cause => "Unavailable(" ++ Quoted.quote cause ++ ")"
  | malformed cause => "Malformed(" ++ Quoted.quote cause ++ ")"

end SourceError

abbrev Source := Scope → Except SourceError RotaView

def Rota.source (r : Rota) : Source := fun scope => .ok (r.view scope)

def Source.failing (e : SourceError) : Source := fun _ => .error e

inductive PassError
  | storageUnavailable (cause : String)
  | malformedData (cause : String)
  | limitExceeded
  | workerFailed (cause : Fault)
  /-- The fault that stopped the pass, which is not counted. -/
  | stopped (cause : Fault)
deriving DecidableEq, Repr

namespace PassError

def ofSource : SourceError → PassError
  | .unavailable cause => storageUnavailable cause
  | .malformed cause => malformedData cause

def message : PassError → String
  | storageUnavailable cause => "storage unavailable: " ++ cause
  | malformedData cause => "malformed data: " ++ cause
  | limitExceeded => "limit exceeded: too many shifts in one pass"
  | workerFailed cause => "validation worker failed: " ++ cause.message
  | stopped cause => cause.message

end PassError

/-- The largest number of bookings that a pass takes, unless told otherwise. -/
def standardMaxShifts : Nat := 200000

structure Validator where
  rules : Rules
  policy : Policy
  maxShifts : Nat

abbrev Pass := Metrics → Except PassError Report × Metrics

namespace Metrics

def countReport (m : Metrics) (scope : PassScope) (r : Report) : Metrics :=
  let summary := r.summary
  ((((m.add (.validations scope .ok) 1).add (.durations scope) 1).add
    (.findings .conflict) summary.conflicts).add
    (.findings .shortage) summary.shortages).add
    .rejectedShifts summary.rejected

def countFailure (m : Metrics) (scope : PassScope) : Metrics :=
  m.add (.validations scope .error) 1

end Metrics

namespace Validator

def standard : Validator := ⟨.standard, .perBand, standardMaxShifts⟩

def load (v : Validator) (source : Source) (scope : Scope) (label : PassScope) (m : Metrics) :
    Except PassError RotaView × Metrics :=
  match source scope with
  | .error cause => (.error (.ofSource cause), (m.add .storeFailures 1).countFailure label)
  | .ok view =>
    if v.maxShifts < view.shifts.size then (.error .limitExceeded, m.countFailure label)
    else (.ok view, m)

def finish (label : PassScope) (outcome : Except PassError Report) (m : Metrics) :
    Except PassError Report × Metrics :=
  match outcome with
  | .ok r => (.ok r, m.countReport label r)
  | .error (.workerFailed cause) => (.error (.workerFailed cause), m.countFailure label)
  | .error e => (.error e, m)

def pass (v : Validator) (source : Source) (scope : Scope) (label : PassScope)
    (work : RotaView → Except PassError Report) : Pass := fun m =>
  match v.load source scope label m with
  | (.error cause, m) => (.error cause, m)
  | (.ok view, m) => finish label (work view) m

/-- The report on bookings of a view; a fault stops the program. -/
def check (v : Validator) (roster : Roster) (s : Snapshot) : Except PassError Report :=
  (s.validate roster v.rules v.policy).mapError .stopped

def checkDay (v : Validator) (view : RotaView) (d : Weekday) : Except PassError Report :=
  ((view.shifts.onDay d).validate view.roster v.rules v.policy).mapError .workerFailed

def validate (v : Validator) (source : Source) : Pass :=
  v.pass source .all .week fun view => v.check view.roster view.shifts

def validateProject (v : Validator) (source : Source) (p : ProjectId) : Pass :=
  v.pass source (.project p) .project fun view => v.check view.roster view.shifts

/-- Looks for the conflicts of one member.  Ratios need everybody's day and are not looked at,
and a child has no conflicts. -/
def validateMember (v : Validator) (source : Source) (member : MemberId) : Pass :=
  v.pass source (.member member) .member fun view =>
    let intake := Intake.ofSnapshot view.shifts view.roster
    let staff := intake.staff.filter fun s => s.member = member
    .ok (.ofEntries ((conflicts staff).map .conflict) intake.rejected)

def validateDay (v : Validator) (source : Source) (d : Weekday) : Pass :=
  v.pass source .all .day fun view => v.check view.roster (view.shifts.onDay d)

/-- Validates everything that the source holds, each day by a worker of its own. -/
def validateByDay (v : Validator) (source : Source) : Pass :=
  v.pass source .all .weekParallel fun view => do
    let parts ← Weekday.all.mapM (v.checkDay view)
    let rest ← v.check view.roster view.shifts.undated
    return .merge (parts ++ [rest])

end Validator

end NurseryRota
