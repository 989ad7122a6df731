import NurseryRota.Conflict
import NurseryRota.Staffing.Shortage

/-!
# Reports

A report lists what a pass found and the bookings it left out, each in a fixed order.  Findings
order by day, start of their window, kind (conflicts first), end of the window and then the
ids; rejections by shift and member.  The sorts are stable, so merging reports in any grouping
gives one list.
-/

namespace NurseryRota

inductive Finding
  | conflict (c : Conflict)
  | shortage (v : Shortage)
deriving DecidableEq

namespace Finding

def window : Finding → Interval
  | conflict c => c.overlap
  | shortage v => v.window

def key (f : Finding) : SortKey :=
  let w := f.window
  match f with
  | conflict c =>
    ⟨[w.day.rank, w.start, 0, w.stop, c.member.rank, c.first.rank, c.second.rank]⟩
  | shortage v =>
    ⟨[w.day.rank, w.start, 1, w.stop, v.project.rank, Uuid.zero.rank, Uuid.zero.rank]⟩

def conflict? : Finding → Option Conflict
  | conflict c => some c
  | shortage _ => none

def shortage? : Finding → Option Shortage
  | conflict _ => none
  | shortage v => some v

end Finding

def Rejection.key (r : Rejection) : SortKey := ⟨[r.shift.rank, r.member.rank]⟩

structure Summary where
  conflicts : Nat
  shortages : Nat
  rejected : Nat
deriving DecidableEq, Repr

structure Report where
  findings : List Finding
  rejected : List Rejection
deriving DecidableEq

namespace Report

def ofEntries (findings : List Finding) (rejected : List Rejection) : Report :=
  ⟨sortBy Finding.key findings, sortBy Rejection.key rejected⟩

def addRejections (r : Report) (more : List Rejection) : Report :=
  ofEntries r.findings (r.rejected ++ more)

def merge (parts : List Report) : Report :=
  ofEntries (parts.flatMap findings) (parts.flatMap rejected)

def isClean (r : Report) : Bool := r.findings.isEmpty && r.rejected.isEmpty

theorem isClean_iff (r : Report) : r.isClean = true ↔ r.findings = [] ∧ r.rejected = [] := by
  simp [isClean]

def conflicts (r : Report) : List Conflict := r.findings.filterMap Finding.conflict?

def shortages (r : Report) : List Shortage :=
  r.findings.filterMap Finding.shortage?

def summary (r : Report) : Summary :=
  ⟨r.conflicts.length, r.shortages.length, r.rejected.length⟩

end Report

end NurseryRota
