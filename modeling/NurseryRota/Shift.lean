import NurseryRota.Interval
import NurseryRota.Member

/-!
# Bookings and shifts

A booking is what a store holds: a member, a day and two times, all unchecked.  A booking whose
times describe an interval yields a shift; one that cannot be used is rejected with the reason,
and the rejection names the booking and its member.
-/

namespace NurseryRota

/-- A shift as it is stored. -/
structure Booking where
  id : ShiftId
  member : MemberId
  day : Int16
  inTime : Int16
  outTime : Int16
deriving DecidableEq

structure Shift where
  id : ShiftId
  member : MemberId
  interval : Interval
deriving DecidableEq

/-- The shift of a child, with the band whose ratio counts for it. -/
structure Attendance where
  shift : Shift
  band : Band
deriving DecidableEq

inductive Refusal
  | invalidInterval (cause : IntervalError)
  | unknownMember
deriving DecidableEq, Repr

def Refusal.message : Refusal → String
  | invalidInterval cause => "invalid interval: " ++ cause.message
  | unknownMember => "member not on roster"

structure Rejection where
  shift : ShiftId
  member : MemberId
  reason : Refusal
deriving DecidableEq

namespace Booking

def key (b : Booking) : SortKey := ⟨[b.id.rank]⟩

/-- The day of the week that the booking is stored against, if its number denotes one. -/
def weekday? (b : Booking) : Option Weekday := Weekday.ofNumber? b.day.toInt

def normalize (b : Booking) : Except IntervalError Interval :=
  Interval.normalize b.day b.inTime b.outTime

def reject (b : Booking) (reason : Refusal) : Rejection := ⟨b.id, b.member, reason⟩

def toShift (b : Booking) : Except Rejection Shift :=
  match b.normalize with
  | .ok i => .ok ⟨b.id, b.member, i⟩
  | .error e => .error (b.reject (.invalidInterval e))

end Booking

end NurseryRota
