import NurseryRota.Staffing.Presence
import NurseryRota.Staffing.Requirement

/-!
# Coverage of a day

The coverage of a day is its timeline of headcounts: slices between consecutive minutes at
which somebody arrives or leaves.  Departures of a minute are counted before its arrivals, so a
handover does not count two people at once.  Each slice carries the staff that the children
then present require.
-/

namespace NurseryRota

/-- Who is there: the number of staff, and of children by band. -/
structure Headcount where
  staff : Nat
  children : ByBand Nat
deriving DecidableEq

namespace Headcount

def nobody : Headcount := ⟨0, ⟨0, 0, 0⟩⟩

def count (h : Headcount) : Role → Nat
  | .staff => h.staff
  | .child b => h.children.get b

def setCount (h : Headcount) (r : Role) (n : Nat) : Headcount :=
  match r with
  | .staff => { h with staff := n }
  | .child b => { h with children := h.children.set b n }

end Headcount

structure Change where
  minute : Int
  arrives : Bool
  role : Role
deriving DecidableEq

namespace Change

/-- Changes order by minute, departures first. -/
def key (c : Change) : SortKey := ⟨[c.minute, if c.arrives then 1 else -1]⟩

def apply (h : Headcount) (c : Change) : Except Fault Headcount := do
  let n ← if c.arrives then Bounded.add 32 (h.count c.role) 1
    else Bounded.sub (h.count c.role) 1
  return h.setCount c.role n

end Change

def Presence.changes (p : Presence) : List Change :=
  p.spans.flatMap fun s => [⟨s.start, true, p.role⟩, ⟨s.stop, false, p.role⟩]

/-- Headcounts over a stretch of a day during which nobody arrives or leaves. -/
structure Slice where
  window : Interval
  present : Headcount
  required : Nat
deriving DecidableEq

def Interval.between (day : Weekday) (start stop : Int) : Except Fault Interval :=
  let window : Interval := ⟨day, start, stop⟩
  if window.Valid then .ok window else .error .windowOutOfDay

/-- The slices from a headcount on, for changes grouped by their minutes. -/
def slicesFrom (rules : Rules) (policy : Policy) (day : Weekday) (before : Headcount) :
    List (Int × List Change) → Except Fault (List Slice)
  | [] => .ok []
  | (minute, changes) :: rest => do
    let present ← changes.foldlM Change.apply before
    match rest with
    | [] => return []
    | (next, _) :: _ =>
      let window ← Interval.between day minute next
      let required ← rules.staffNeeded policy present.children
      let slices ← slicesFrom rules policy day present rest
      return ⟨window, present, required⟩ :: slices

/-- The changes of a day in their order, grouped by their minutes. -/
def Team.changes (t : Team) (day : Weekday) : List (Int × List Change) :=
  stretches Change.minute
    (sortBy Change.key ((presences day t.stays).flatMap Presence.changes))

def Team.coverage (t : Team) (rules : Rules) (policy : Policy) (day : Weekday) :
    Except Fault (List Slice) :=
  slicesFrom rules policy day .nobody (t.changes day)

end NurseryRota
