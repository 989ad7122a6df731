/-!
# Metrics

Passes are counted.  A series is a counter with the labels that tell it from others of its
name; the duration of passes is a histogram, of which the number of samples is kept.  A series
is listed once something was added to it, be it zero.
-/

namespace NurseryRota

inductive PassScope
  | week | project | member | day | weekParallel
deriving DecidableEq, Repr

def PassScope.label : PassScope → String
  | week => "week"
  | project => "project"
  | member => "member"
  | day => "day"
  | weekParallel => "week_parallel"

inductive PassStatus
  | ok | error
deriving DecidableEq, Repr

def PassStatus.label : PassStatus → String
  | ok => "ok"
  | error => "error"

inductive FindingKind
  | conflict | shortage
deriving DecidableEq, Repr

def FindingKind.label : FindingKind → String
  | conflict => "conflict"
  | shortage => "ratio_violation"

inductive Series
  | validations (scope : PassScope) (status : PassStatus)
  | durations (scope : PassScope)
  | findings (kind : FindingKind)
  | rejectedShifts
  | storeFailures
  | daysRevalidated
deriving DecidableEq, Repr

namespace Series

/-- The name of a counter and its labels, in order of the labels' names. -/
def parts : Series → String × List (String × String)
  | validations scope status =>
    ("rota_validations_total", [("scope", scope.label), ("status", status.label)])
  | durations scope => ("rota_validation_duration_seconds", [("scope", scope.label)])
  | findings kind => ("rota_findings_total", [("kind", kind.label)])
  | rejectedShifts => ("rota_rejected_shifts_total", [])
  | storeFailures => ("rota_store_failures_total", [])
  | daysRevalidated => ("rota_live_days_revalidated_total", [])

def text (s : Series) : String :=
  let (name, labels) := s.parts
  name ++ "\x7b" ++ ",".intercalate (labels.map fun (l, v) => l ++ "=" ++ v) ++ "\x7d"

end Series

structure Metrics where
  samples : List (Series × Nat)
deriving DecidableEq, Repr

namespace Metrics

def empty : Metrics := ⟨[]⟩

def value (m : Metrics) (s : Series) : Nat := (m.samples.lookup s).getD 0

/-- Adds to the sample of a series, which is made if it is missing. -/
def addSample (s : Series) (n : Nat) : List (Series × Nat) → List (Series × Nat)
  | [] => [(s, n)]
  | (t, k) :: rest => if s = t then (t, k + n) :: rest else (t, k) :: addSample s n rest

def add (m : Metrics) (s : Series) (n : Nat) : Metrics := ⟨addSample s n m.samples⟩

theorem lookup_addSample (s t : Series) (n : Nat) (samples : List (Series × Nat)) :
    ((addSample s n samples).lookup t).getD 0 =
      (samples.lookup t).getD 0 + if t = s then n else 0 := by
  induction samples with
  | nil =>
    by_cases h : t = s
    · simp [addSample, h]
    · have hne : (t == s) = false := beq_eq_false_iff_ne.2 h
      simp [addSample, List.lookup_cons, hne, h]
  | cons e rest ih =>
    obtain ⟨u, k⟩ := e
    by_cases hs : s = u
    · subst hs
      by_cases h : t = s
      · simp [addSample, h]
      · have hne : (t == s) = false := beq_eq_false_iff_ne.2 h
        simp [addSample, List.lookup_cons, hne, h]
    · by_cases h : t = u
      · subst h
        have hts : ¬t = s := fun e => hs e.symm
        simp [addSample, hs, hts]
      · have hne : (t == u) = false := beq_eq_false_iff_ne.2 h
        simp only [addSample, hs, if_false, List.lookup_cons, hne]
        exact ih

/-- Adding raises the series by the amount and leaves the others alone. -/
theorem value_add (m : Metrics) (s t : Series) (n : Nat) :
    (m.add s n).value t = m.value t + if t = s then n else 0 :=
  lookup_addSample s t n m.samples

end Metrics

end NurseryRota
