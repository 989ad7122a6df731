import NurseryRota.Sorting
import NurseryRota.Weekday

/-!
# Intervals of a day

An interval is a half-open stretch of minutes `[start, stop)` of one day.  Minutes count from
midnight and 1440 is the midnight that ends the day.  Stored bounds are unchecked words;
`Interval.normalize` admits those that describe a stretch of at least a minute within the day.
-/

namespace NurseryRota

def minutesPerDay : Nat := 1440

/-- Half-open stretch of minutes on one day. -/
structure Interval where
  day : Weekday
  start : Int
  stop : Int
deriving DecidableEq, Repr, Inhabited

inductive IntervalError
  | dayOutOfRange (day : Int16)
  | minuteOutOfRange (minute : Int16)
  | notIncreasing (inTime outTime : Int16)
deriving DecidableEq, Repr

namespace IntervalError

def message : IntervalError → String
  | dayOutOfRange d => "day " ++ toString d.toInt ++ " outside 0..=6"
  | minuteOutOfRange m =>
    "minute " ++ toString m.toInt ++ " outside 0..=" ++ toString minutesPerDay
  | notIncreasing i o =>
    "in_time " ++ toString i.toInt ++ " is not before out_time " ++ toString o.toInt

end IntervalError

namespace Interval

structure Valid (i : Interval) : Prop where
  start_nonneg : 0 ≤ i.start
  start_lt_stop : i.start < i.stop
  stop_le : i.stop ≤ minutesPerDay

instance (i : Interval) : Decidable i.Valid :=
  decidable_of_iff (0 ≤ i.start ∧ i.start < i.stop ∧ i.stop ≤ minutesPerDay)
    ⟨fun ⟨a, b, c⟩ => ⟨a, b, c⟩, fun ⟨a, b, c⟩ => ⟨a, b, c⟩⟩

def duration (i : Interval) : Int := i.stop - i.start

def hoursAndMinutes (i : Interval) : Int × Int := (i.duration / 60, i.duration % 60)

def overlaps (a b : Interval) : Bool := a.day = b.day && a.start < b.stop && b.start < a.stop

def covers (i : Interval) (minute : Int) : Bool := i.start ≤ minute && minute < i.stop

def contains (a b : Interval) : Bool := a.day = b.day && a.start ≤ b.start && b.stop ≤ a.stop

def intersection (a b : Interval) : Option Interval :=
  if a.overlaps b then some ⟨a.day, max a.start b.start, min a.stop b.stop⟩ else none

def key (i : Interval) : SortKey := ⟨[i.day.rank, i.start, i.stop]⟩

def compare (a b : Interval) : Ordering :=
  if a.key = b.key then .eq else if a.key ≤ b.key then .lt else .gt

def inDay (minute : Int16) : Bool := 0 ≤ minute.toInt && minute.toInt ≤ minutesPerDay

/-- The interval that stored words describe: the day is looked at first, then the two minutes
in order, then whether they increase. -/
def normalize (day inTime outTime : Int16) : Except IntervalError Interval :=
  match Weekday.ofNumber? day.toInt with
  | none => .error (.dayOutOfRange day)
  | some d =>
    if !inDay inTime then .error (.minuteOutOfRange inTime)
    else if !inDay outTime then .error (.minuteOutOfRange outTime)
    else if outTime.toInt ≤ inTime.toInt then .error (.notIncreasing inTime outTime)
    else .ok ⟨d, inTime.toInt, outTime.toInt⟩

theorem valid_of_normalize {day inTime outTime : Int16} {i : Interval}
    (h : normalize day inTime outTime = .ok i) : i.Valid := by
  unfold normalize at h
  split at h
  · cases h
  · split at h
    · cases h
    · next hin =>
      split at h
      · cases h
      · next hout =>
        split at h
        · cases h
        · next hlt =>
          simp only [inDay, Bool.not_eq_true, Bool.not_eq_false', Bool.and_eq_true,
            decide_eq_true_eq] at hin hout
          cases h
          exact ⟨hin.1, Int.not_le.1 hlt, hout.2⟩

theorem covers_iff {i : Interval} {minute : Int} :
    i.covers minute ↔ i.start ≤ minute ∧ minute < i.stop := by
  simp [covers]

/-- Two intervals of a day overlap if some minute lies in both. -/
theorem overlaps_iff {a b : Interval} (ha : a.Valid) (hb : b.Valid) :
    a.overlaps b ↔ a.day = b.day ∧ ∃ m, a.covers m ∧ b.covers m := by
  have := ha.start_lt_stop
  have := hb.start_lt_stop
  simp only [overlaps, covers, Bool.and_eq_true, decide_eq_true_eq, and_assoc]
  refine and_congr_right fun _ => ⟨fun _ => ⟨max a.start b.start, by omega⟩, ?_⟩
  rintro ⟨m, hm⟩
  omega

theorem valid_of_intersection {a b c : Interval} (ha : a.Valid) (hb : b.Valid)
    (h : a.intersection b = some c) : c.Valid := by
  unfold intersection at h
  split at h
  · next hov =>
    simp only [overlaps, Bool.and_eq_true, decide_eq_true_eq] at hov
    cases h
    have := ha.start_nonneg; have := ha.start_lt_stop; have := ha.stop_le
    have := hb.start_nonneg; have := hb.start_lt_stop; have := hb.stop_le
    constructor <;> simp only <;> omega
  · cases h

end Interval

end NurseryRota
