import NurseryRota.Table
import NurseryRota.Weekday

/-!
# Members and the roster

A member is either staff or a child, and a child belongs to an age band.  The roster says of
every registered member which project it belongs to and in what role; a member belongs to one
project at a time.
-/

namespace NurseryRota

inductive Band
  | underTwo | twoYearOld | threePlus
deriving DecidableEq, Repr, Inhabited

namespace Band

def all : List Band := [underTwo, twoYearOld, threePlus]

def index : Band → Fin 3
  | underTwo => 0
  | twoYearOld => 1
  | threePlus => 2

def name : Band → String
  | underTwo => "under_two"
  | twoYearOld => "two_year_old"
  | threePlus => "three_plus"

def ofName (s : String) : Except UnknownName Band :=
  match all.find? fun b => b.name = s with
  | some b => .ok b
  | none => .error ⟨"age band", s⟩

theorem ofName_name (b : Band) : ofName b.name = .ok b := by cases b <;> rfl

end Band

inductive Role
  | staff
  | child (band : Band)
deriving DecidableEq, Repr, Inhabited

inductive RoleError
  | bandMissing
  | unknownBand (cause : UnknownName)
  | unknownRole (role : String)
deriving DecidableEq, Repr

def RoleError.message : RoleError → String
  | bandMissing => "child without age_band"
  | unknownBand cause => cause.message
  | unknownRole role => "unknown role: " ++ role

namespace Role

def rank : Role → Int
  | staff => 0
  | child b => 1 + (b.index : Nat)

/-- The role that the text of two stored columns denotes.  The band of staff is not looked
at. -/
def ofColumns (role : String) (band : Option String) : Except RoleError Role :=
  if role = "staff" then .ok staff
  else if role = "child" then
    match band with
    | none => .error .bandMissing
    | some b =>
      match Band.ofName b with
      | .ok b => .ok (child b)
      | .error e => .error (.unknownBand e)
  else .error (.unknownRole role)

theorem rank_inj {a b : Role} : a.rank = b.rank ↔ a = b := by
  rcases a with _ | ⟨_ | _ | _⟩ <;> rcases b with _ | ⟨_ | _ | _⟩ <;> decide

end Role

structure Enrolment where
  project : ProjectId
  role : Role
deriving DecidableEq

abbrev Roster := Table Enrolment

namespace Roster

def ofProject (r : Roster) (p : ProjectId) : Roster := r.filter fun _ m => m.project = p

end Roster

end NurseryRota
