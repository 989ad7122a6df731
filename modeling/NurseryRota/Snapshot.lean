import NurseryRota.Edit

/-!
# Snapshots

A pass works on a snapshot: bookings in ascending order of id, taken together with the roster
of the same moment.  The scope of a pass says which part of the rota it takes.
-/

namespace NurseryRota

/-- Bookings in ascending order of id. -/
@[ext] structure Snapshot where
  bookings : List Booking
  ascending : bookings.Pairwise fun a b => a.key ≤ b.key

namespace Snapshot

/-- The snapshot of bookings in any order; bookings of one id keep the order they had. -/
def ofBookings (bookings : List Booking) : Snapshot :=
  ⟨sortBy Booking.key bookings, pairwise_sortBy _ bookings⟩

def size (s : Snapshot) : Nat := s.bookings.length

def isEmpty (s : Snapshot) : Bool := s.bookings.isEmpty

/-- Every booking as a shift or as a rejection, in the order of the bookings. -/
def shifts (s : Snapshot) : List (Except Rejection Shift) := s.bookings.map Booking.toShift

def filter (s : Snapshot) (keep : Booking → Bool) : Snapshot :=
  ⟨s.bookings.filter keep, s.ascending.filter _⟩

def onDay (s : Snapshot) (d : Weekday) : Snapshot := s.filter fun b => b.day = d.number

def undated (s : Snapshot) : Snapshot := s.filter fun b => b.weekday? = none

end Snapshot

inductive Scope
  | all
  | project (id : ProjectId)
  | member (id : MemberId)
deriving DecidableEq

/-- Bookings and roster read at one moment. -/
structure RotaView where
  shifts : Snapshot
  roster : Roster

namespace Rota

def bookingsOf (r : Rota) (member : Option MemberId) : Snapshot :=
  .ofBookings (r.shifts.values.filter fun b => member.all (b.member = ·))

/-- What a pass with a scope sees.  The project scope holds the bookings of the project's members
only, so that those of unregistered members show in the full scope alone. -/
def view (r : Rota) : Scope → RotaView
  | .all => ⟨.ofBookings r.shifts.values, r.roster⟩
  | .project p =>
    let roster := Roster.ofProject r.roster p
    ⟨.ofBookings (r.shifts.values.filter fun b => roster.contains b.member), roster⟩
  | .member m =>
    ⟨.ofBookings (r.shifts.values.filter fun b => b.member = m),
      r.roster.filter fun id _ => id = m⟩

end Rota

end NurseryRota
