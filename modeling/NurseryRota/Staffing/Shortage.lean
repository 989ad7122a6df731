import NurseryRota.Staffing.Coverage

/-!
# Shortages of staff

A shortage is a maximal window of a day in which fewer staff are there than the children
require.  Neighbouring short slices make one window; it reports the most staff required, the
fewest there and the largest gap between the two at any one time.
-/

namespace NurseryRota

structure Shortage where
  project : ProjectId
  day : Weekday
  window : Interval
  /-- The most staff required within the window. -/
  required : Nat
  /-- The fewest staff there within the window. -/
  actual : Nat
  /-- The largest `required - actual` at any one time within the window. -/
  shortfall : Nat
deriving DecidableEq

def Slice.short (s : Slice) : Bool := s.present.staff < s.required

namespace Shortage

def ofSlice (project : ProjectId) (s : Slice) : Shortage :=
  ⟨project, s.window.day, s.window, s.required, s.present.staff, s.required - s.present.staff⟩

def extend (p : Shortage) (s : Slice) : Shortage :=
  { p with
    window := { p.window with stop := s.window.stop }
    required := max p.required s.required
    actual := min p.actual s.present.staff
    shortfall := max p.shortfall (s.required - s.present.staff) }

/-- The shortages of a timeline, of which `pending` is still open. -/
def collect (project : ProjectId) (pending : Option Shortage) :
    List Slice → List Shortage
  | [] => pending.toList
  | s :: rest =>
    if !s.short then pending.toList ++ collect project none rest
    else
      match pending with
      | none => collect project (some (ofSlice project s)) rest
      | some p =>
        if p.window.stop = s.window.start then collect project (some (p.extend s)) rest
        else p :: collect project (some (ofSlice project s)) rest

end Shortage

def Team.shortages (t : Team) (project : ProjectId) (rules : Rules) (policy : Policy)
    (day : Weekday) : Except Fault (List Shortage) := do
  let slices ← t.coverage rules policy day
  return Shortage.collect project none slices

end NurseryRota
