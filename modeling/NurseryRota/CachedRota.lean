import NurseryRota.Metrics
import NurseryRota.Validation

/-!
# A rota that keeps its results

Conflicts and shortages never cross midnight, so each day can be validated on its own.  A cached
rota keeps the last report of every day; an edit makes the days stale that it touches, and the
next report validates the stale days only.  Bookings whose day is none of the week's are kept
apart and looked at every time.
-/

namespace NurseryRota

universe u

structure ByDay (α : Type u) where
  values : Vector α 7

namespace ByDay

variable {α : Type u}

def get (t : ByDay α) (d : Weekday) : α := t.values[d.index]

def set (t : ByDay α) (d : Weekday) (x : α) : ByDay α := ⟨t.values.set d.index x⟩

def const (x : α) : ByDay α := ⟨Vector.replicate 7 x⟩

theorem get_set (t : ByDay α) (d e : Weekday) (x : α) :
    (t.set d x).get e = if e = d then x else t.get e := by
  by_cases h : e = d
  · subst h
    simp [get, set]
  · have hne : (d.index : Nat) ≠ (e.index : Nat) := fun hi =>
      h (Weekday.index_inj.1 (Fin.ext hi.symm))
    simp [get, set, h, hne]

theorem get_const (x : α) (d : Weekday) : (const x).get d = x := by
  simp [get, const]

end ByDay

/-- A rota with the last report of every day that no later edit has touched. -/
structure CachedRota where
  rules : Rules
  policy : Policy
  roster : Roster
  bookings : Table Booking
  days : ByDay (Table Booking)
  /-- The bookings of no day. -/
  undated : Table Booking
  /-- The report of each day that is not stale. -/
  reports : ByDay (Option Report)
  /-- How many days have been validated so far, every time counted. -/
  revalidated : Nat

namespace CachedRota

def empty (rules : Rules) (policy : Policy) : CachedRota :=
  { rules, policy, roster := ∅, bookings := ∅, days := .const ∅, undated := ∅,
    reports := .const none, revalidated := 0 }

def shiftCount (c : CachedRota) : Nat := c.bookings.size

def touch (c : CachedRota) (d : Weekday) : CachedRota :=
  { c with reports := c.reports.set d none }

/-- Files a booking under its day.  One of the same id that is filed elsewhere stays there. -/
def book (c : CachedRota) (b : Booking) : CachedRota :=
  let c := { c with bookings := c.bookings.insert b.id b }
  match b.weekday? with
  | some d => { c.touch d with days := c.days.set d ((c.days.get d).insert b.id b) }
  | none => { c with undated := c.undated.insert b.id b }

def unbook (c : CachedRota) (id : ShiftId) : CachedRota :=
  match c.bookings.get? id with
  | none => c
  | some old =>
    let c := { c with bookings := c.bookings.erase id }
    match old.weekday? with
    | some d => { c.touch d with days := c.days.set d ((c.days.get d).erase id) }
    | none => { c with undated := c.undated.erase id }

def isBookedOn (c : CachedRota) (member : MemberId) (d : Weekday) : Bool :=
  (c.days.get d).values.any fun b => b.member = member

def touchMember (c : CachedRota) (member : MemberId) : CachedRota :=
  Weekday.all.foldl (fun c d => if c.isBookedOn member d then c.touch d else c) c

def ofSnapshot (s : Snapshot) (roster : Roster) (rules : Rules) (policy : Policy) : CachedRota :=
  s.bookings.foldl book { empty rules policy with roster }

def apply (c : CachedRota) : Edit → CachedRota
  | .memberRegistered id m => { c with roster := c.roster.insert id m }.touchMember id
  | .memberRemoved id => { c with roster := c.roster.erase id }.touchMember id
  | .shiftAdded b => (c.unbook b.id).book b
  | .shiftUpdated b => (c.unbook b.id).book b
  | .shiftRemoved id => c.unbook id

def applyAll (c : CachedRota) (edits : List Edit) : CachedRota := edits.foldl apply c

def staleDays (c : CachedRota) : List Weekday :=
  Weekday.all.filter fun d => (c.reports.get d).isNone

def validateBookings (c : CachedRota) (bookings : Table Booking) : Except Fault Report :=
  (Snapshot.ofBookings bookings.values).validate c.roster c.rules c.policy

/-- Validates the given days as far as they are stale, up to the first fault. -/
def refresh (c : CachedRota) : List Weekday → CachedRota × Option Fault
  | [] => (c, none)
  | d :: rest =>
    if (c.reports.get d).isSome then c.refresh rest
    else
      match c.validateBookings (c.days.get d) with
      | .error fault => (c, some fault)
      | .ok report =>
        { c with
          reports := c.reports.set d (some report)
          revalidated := c.revalidated + 1 }.refresh rest

/-- The report on the whole rota.  The reports of the days validated on the way are kept, also
when a later one ends in a fault. -/
def report (c : CachedRota) : CachedRota × Except Fault Report :=
  match c.refresh Weekday.all with
  | (c, some fault) => (c, .error fault)
  | (c, none) =>
    match c.validateBookings c.undated with
    | .error fault => (c, .error fault)
    | .ok rest =>
      (c, .ok (.merge ((Weekday.all.filterMap c.reports.get) ++ [rest])))

def metrics (c : CachedRota) : Metrics :=
  if c.revalidated = 0 then .empty else Metrics.empty.add .daysRevalidated c.revalidated

end CachedRota

end NurseryRota
