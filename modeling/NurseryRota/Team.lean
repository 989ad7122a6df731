import NurseryRota.Snapshot

/-!
# Teams

Bookings are filed under the project and the role of their members.  A team is what one project
has of them: the shifts of its staff and the attendances of its children.  Every booking of a
snapshot is filed exactly once: as a rejection when its times describe no interval or its member
is not on the roster, and otherwise in one list of one team.
-/

namespace NurseryRota

structure Team where
  staff : List Shift
  children : List Attendance
deriving DecidableEq

structure Filed where
  enrolment : Enrolment
  shift : Shift
deriving DecidableEq

namespace Filed

def key (f : Filed) : SortKey := ⟨[f.enrolment.project.rank]⟩

def staff? (f : Filed) : Option Shift :=
  match f.enrolment.role with
  | .staff => some f.shift
  | .child _ => none

def child? (f : Filed) : Option Attendance :=
  match f.enrolment.role with
  | .staff => none
  | .child b => some ⟨f.shift, b⟩

end Filed

def Team.ofFiled (fs : List Filed) : Team :=
  ⟨fs.filterMap Filed.staff?, fs.filterMap Filed.child?⟩

/-- A booking's place in its member's team, or its rejection.  Unusable times are found before
the member is looked up. -/
def Booking.file (roster : Roster) (b : Booking) : Except Rejection Filed :=
  match b.toShift with
  | .error e => .error e
  | .ok s =>
    match roster.get? b.member with
    | none => .error (b.reject .unknownMember)
    | some m => .ok ⟨m, s⟩

structure Intake where
  teams : List (ProjectId × Team)
  rejected : List Rejection

namespace Intake

def teamsOf (fs : List Filed) : List (ProjectId × Team) :=
  (stretches (fun f => f.enrolment.project)
    (sortBy Filed.key fs)).map fun g => (g.1, Team.ofFiled g.2)

def ofSnapshot (s : Snapshot) (roster : Roster) : Intake :=
  let filed := s.bookings.map (Booking.file roster)
  { teams := teamsOf (filed.filterMap fun | .ok f => some f | .error _ => none)
    rejected := filed.filterMap fun | .ok _ => none | .error e => some e }

def staff (i : Intake) : List Shift := i.teams.flatMap fun t => t.2.staff

end Intake

end NurseryRota
