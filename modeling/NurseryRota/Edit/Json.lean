import NurseryRota.Edit
import NurseryRota.Json.Parser
import NurseryRota.Json.Printer
import NurseryRota.Json.Shape
import NurseryRota.Uuid.Text

/-!
# Edits as JSON

An edit is a choice named for what happens, with a record of its fields.  The role of a member
is a choice as well: staff has no data, a child has its age band.  Identifiers are strings in
any of their spellings, days and times are integers of 16 bits.
-/

namespace NurseryRota

namespace Json

def ofUuid (u : Uuid) : Json := ofText u.text

def uuid? (j : Json) : Option Uuid := j.text?.bind Uuid.ofText?

def ofWord (w : Int16) : Json := ofInt w.toInt

def word? (j : Json) : Option Int16 :=
  j.int?.bind fun n => if -32768 ≤ n ∧ n ≤ 32767 then some (Int16.ofInt n) else none

def ofBand (b : Band) : Json := ofText b.name

def band? (j : Json) : Option Band := do
  let (name, data) ← j.choice?
  if isUnit data then (Band.ofName name).toOption else none

end Json

def Role.toJson : Role → Json
  | staff => .ofText "staff"
  | child b => .ofFields [("child", .ofFields [("age_band", .ofBand b)])]

def Role.ofJson? (j : Json) : Option Role := do
  let (name, data) ← j.choice?
  match name, data with
  | "staff", data => if Json.isUnit data then some staff else none
  | "child", some data =>
    match ← data.record? ["age_band"] with
    | [b] => return child (← b.band?)
    | _ => none
  | _, _ => none

def Booking.fieldNames : List String := ["id", "member_id", "day", "in_time", "out_time"]

def Booking.toJson (r : Booking) : Json :=
  .ofFields [("id", .ofUuid r.id), ("member_id", .ofUuid r.member), ("day", .ofWord r.day),
    ("in_time", .ofWord r.inTime), ("out_time", .ofWord r.outTime)]

def Booking.ofJson? (j : Json) : Option Booking := do
  match ← j.record? fieldNames with
  | [id, member, day, inTime, outTime] =>
    return ⟨← id.uuid?, ← member.uuid?, ← day.word?, ← inTime.word?, ← outTime.word?⟩
  | _ => none

namespace Edit

def toJson : Edit → Json
  | memberRegistered id m =>
    .ofFields [("MemberRegistered", .ofFields [("id", .ofUuid id),
      ("project_id", .ofUuid m.project), ("kind", m.role.toJson)])]
  | memberRemoved id => .ofFields [("MemberRemoved", .ofFields [("id", .ofUuid id)])]
  | shiftAdded booking => .ofFields [("ShiftAdded", booking.toJson)]
  | shiftUpdated booking => .ofFields [("ShiftUpdated", booking.toJson)]
  | shiftRemoved id => .ofFields [("ShiftRemoved", .ofFields [("id", .ofUuid id)])]

def onlyId? (j : Json) : Option Uuid := do
  match ← j.record? ["id"] with
  | [id] => id.uuid?
  | _ => none

def ofJson? (j : Json) : Option Edit := do
  match ← j.choice? with
  | ("MemberRegistered", some data) =>
    match ← data.record? ["id", "project_id", "kind"] with
    | [id, project, role] =>
      return memberRegistered (← id.uuid?) ⟨← project.uuid?, ← Role.ofJson? role⟩
    | _ => none
  | ("MemberRemoved", some data) => (onlyId? data).map memberRemoved
  | ("ShiftAdded", some data) => (Booking.ofJson? data).map shiftAdded
  | ("ShiftUpdated", some data) => (Booking.ofJson? data).map shiftUpdated
  | ("ShiftRemoved", some data) => (onlyId? data).map shiftRemoved
  | _ => none

def ofLine? (line : String) : Option Edit := do
  let j ← (Json.parse line.toList).toOption
  ofJson? j

def line (e : Edit) : String := String.ofList e.toJson.compact

end Edit

end NurseryRota
