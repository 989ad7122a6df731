import NurseryRota.Team

/-!
# Conflicts

Two shifts of one member conflict when they overlap.  `conflicts` finds every such pair with one
sweep over each member's day; `pairwiseConflicts` compares every pair and serves as the
definition that the sweep is measured against.  The pair is named by the order of start, ties
broken by shift id.
-/

namespace NurseryRota

structure Conflict where
  member : MemberId
  day : Weekday
  /-- The shift that starts first; of two that start together, the one with the lower id. -/
  first : ShiftId
  second : ShiftId
  overlap : Interval
deriving DecidableEq

namespace Shift

def memberDay (s : Shift) : MemberId × Weekday := (s.member, s.interval.day)

def startKey (s : Shift) : SortKey := ⟨[s.interval.start, s.id.rank]⟩

/-- The order of a sweep: by member and day, and within a day by start and id. -/
def sweepKey (s : Shift) : SortKey :=
  ⟨[s.member.rank, s.interval.day.rank, s.interval.start, s.id.rank]⟩

/-- The conflict of a shift with a later one, named in that order. -/
def conflictWith (a b : Shift) : Option Conflict :=
  (a.interval.intersection b.interval).map fun overlap =>
    ⟨a.member, a.interval.day, a.id, b.id, overlap⟩

end Shift

/-- Sweeps over the shifts of one member's day.  `active` holds the earlier shifts that may still
be running and `reach` is the latest end so far, so a shift that starts at or after it conflicts
with none of them. -/
def sweepConflicts (active : List Shift) (reach : Int) : List Shift → List Conflict
  | [] => []
  | s :: rest =>
    let running := if reach ≤ s.interval.start then []
      else active.filter fun a => s.interval.start < a.interval.stop
    running.filterMap (·.conflictWith s) ++
      sweepConflicts (running ++ [s]) (max reach s.interval.stop) rest

/-- Every conflict among shifts, by member, then day, then the start of the later shift. -/
def conflicts (shifts : List Shift) : List Conflict :=
  (stretches Shift.memberDay (sortBy Shift.sweepKey shifts)).flatMap
    fun g => sweepConflicts [] 0 g.2

/-- The conflict of two shifts, if they are of one member and overlap. -/
def pairConflict (a b : Shift) : Option Conflict :=
  if a.member = b.member then
    if a.startKey ≤ b.startKey then a.conflictWith b else b.conflictWith a
  else none

/-- Every conflict among shifts, by comparing each with all that follow it. -/
def pairwiseConflicts : List Shift → List Conflict
  | [] => []
  | a :: rest => rest.filterMap (pairConflict a) ++ pairwiseConflicts rest

end NurseryRota
