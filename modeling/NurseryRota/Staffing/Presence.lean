import NurseryRota.Team

/-!
# Presence

A member whose shifts overlap or touch is present once, not twice.  The shifts of each member
in each role on a day are merged into spans that are strictly apart; the spans are what
headcounts are taken from.
-/

namespace NurseryRota

/-- A half-open stretch of minutes `[start, stop)`. -/
structure Span where
  start : Int
  stop : Int
deriving DecidableEq, Repr

namespace Span

/-- Merges a list into the span that is open: a span that starts within it or at its end
extends it, any other one closes it. -/
def mergeInto (current : Span) : List Span → List Span
  | [] => [current]
  | s :: rest =>
    if s.start ≤ current.stop then mergeInto ⟨current.start, max current.stop s.stop⟩ rest
    else current :: mergeInto s rest

/-- Merges neighbours that overlap or touch. -/
def merge : List Span → List Span
  | [] => []
  | s :: rest => mergeInto s rest

end Span

/-- A member's being there in a role, for the interval of one shift. -/
structure Stay where
  member : MemberId
  role : Role
  interval : Interval
deriving DecidableEq

namespace Stay

def span (s : Stay) : Span := ⟨s.interval.start, s.interval.stop⟩

def person (s : Stay) : MemberId × Role := (s.member, s.role)

def key (s : Stay) : SortKey :=
  ⟨[s.member.rank, s.role.rank, s.interval.start, s.interval.stop]⟩

end Stay

def Team.stays (t : Team) : List Stay :=
  t.staff.map (fun s => ⟨s.member, .staff, s.interval⟩) ++
    t.children.map fun a => ⟨a.shift.member, .child a.band, a.shift.interval⟩

structure Presence where
  member : MemberId
  role : Role
  spans : List Span

def presences (day : Weekday) (stays : List Stay) : List Presence :=
  (stretches Stay.person (sortBy Stay.key (stays.filter fun s => s.interval.day = day))).map
    fun g => ⟨g.1.1, g.1.2, Span.merge (g.2.map Stay.span)⟩

end NurseryRota
