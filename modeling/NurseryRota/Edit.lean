import NurseryRota.Shift

/-!
# The rota and its edits

The state of a rota is its roster and its table of bookings.  It changes by edits, one at a
time; a shift edit replaces the booking of its id whether it was meant as an addition or as an
update.  `Rota.history` is a shortest list of edits that builds the state from nothing: the
members in order of identifier, then the bookings.
-/

namespace NurseryRota

inductive Edit
  | memberRegistered (id : MemberId) (enrolment : Enrolment)
  | memberRemoved (id : MemberId)
  | shiftAdded (booking : Booking)
  | shiftUpdated (booking : Booking)
  | shiftRemoved (id : ShiftId)
deriving DecidableEq

def Edit.booking? : Edit → Option Booking
  | shiftAdded booking => some booking
  | shiftUpdated booking => some booking
  | _ => none

structure Rota where
  roster : Roster
  shifts : Table Booking
deriving DecidableEq

namespace Rota

def empty : Rota := ⟨∅, ∅⟩

instance : Inhabited Rota := ⟨empty⟩

def memberCount (r : Rota) : Nat := r.roster.size

def shiftCount (r : Rota) : Nat := r.shifts.size

def register (r : Rota) (id : MemberId) (m : Enrolment) : Rota :=
  { r with roster := r.roster.insert id m }

def unregister (r : Rota) (id : MemberId) : Rota :=
  { r with roster := r.roster.erase id }

/-- Stores a booking under its own id. -/
def store (r : Rota) (booking : Booking) : Rota :=
  { r with shifts := r.shifts.insert booking.id booking }

def discard (r : Rota) (id : ShiftId) : Rota :=
  { r with shifts := r.shifts.erase id }

def apply (r : Rota) : Edit → Rota
  | .memberRegistered id m => r.register id m
  | .memberRemoved id => r.unregister id
  | .shiftAdded booking => r.store booking
  | .shiftUpdated booking => r.store booking
  | .shiftRemoved id => r.discard id

def applyAll (r : Rota) (edits : List Edit) : Rota := edits.foldl apply r

def ofHistory (edits : List Edit) : Rota := empty.applyAll edits

/-- The canonical edits that build the rota from nothing. -/
def history (r : Rota) : List Edit :=
  r.roster.entries.map (fun e => Edit.memberRegistered e.1 e.2) ++
    r.shifts.values.map Edit.shiftAdded

theorem applyAll_append (r : Rota) (xs ys : List Edit) :
    r.applyAll (xs ++ ys) = (r.applyAll xs).applyAll ys :=
  List.foldl_append

theorem length_history (r : Rota) : r.history.length = r.memberCount + r.shiftCount := by
  simp [history, memberCount, shiftCount, Table.size, Table.values]

end Rota

end NurseryRota
