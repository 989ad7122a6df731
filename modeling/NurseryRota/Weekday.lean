/-!
# Days of the week

The week begins on Sunday.  A stored booking gives its day as a number, where 0 is Sunday; people
write the English name in any mixture of cases.
-/

namespace NurseryRota

structure UnknownName where
  kind : String
  name : String
deriving DecidableEq, Repr

def UnknownName.message (e : UnknownName) : String := "unknown " ++ e.kind ++ ": " ++ e.name

inductive Weekday
  | sunday | monday | tuesday | wednesday | thursday | friday | saturday
deriving DecidableEq, Repr, Inhabited

namespace Weekday

def all : List Weekday :=
  [sunday, monday, tuesday, wednesday, thursday, friday, saturday]

/-- The place in the week, counted from Sunday as 0. -/
def index : Weekday → Fin 7
  | sunday => 0
  | monday => 1
  | tuesday => 2
  | wednesday => 3
  | thursday => 4
  | friday => 5
  | saturday => 6

def rank (d : Weekday) : Int := (d.index : Nat)

def name : Weekday → String
  | sunday => "Sunday"
  | monday => "Monday"
  | tuesday => "Tuesday"
  | wednesday => "Wednesday"
  | thursday => "Thursday"
  | friday => "Friday"
  | saturday => "Saturday"

def ofNumber? (n : Int) : Option Weekday := all.find? fun d => d.rank = n

def number (d : Weekday) : Int16 := Int16.ofNat d.index

/-- Lowers the letters `A` to `Z` and leaves every other character alone. -/
def lowerCase (s : String) : String := String.ofList (s.toList.map Char.toLower)

/-- The day of that name, in any mixture of cases. -/
def ofName (s : String) : Except UnknownName Weekday :=
  match all.find? fun d => lowerCase d.name = lowerCase s with
  | some d => .ok d
  | none => .error ⟨"day", lowerCase s⟩

theorem mem_all (d : Weekday) : d ∈ all := by cases d <;> decide

theorem index_inj {a b : Weekday} : a.index = b.index ↔ a = b := by
  cases a <;> cases b <;> decide

theorem ofNumber?_number (d : Weekday) : ofNumber? d.number.toInt = some d := by
  cases d <;> decide

end Weekday

end NurseryRota
