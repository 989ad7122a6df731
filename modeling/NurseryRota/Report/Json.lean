import NurseryRota.Edit.Json
import NurseryRota.Report

/-!
# Reports as JSON

A report is a record of its findings and its rejections.  A finding is a record tagged by its field
`kind`; the reason of a rejection is a choice.  The text of a report is laid out, its fields stand in a
fixed order, and equal reports have equal texts.
-/

namespace NurseryRota

namespace Json

def ofDay (d : Weekday) : Json := ofText d.name

/-- The day of a finding, which is kept until the kind of the finding is known. -/
def day? (j : Json) : Option Weekday := do
  let (name, data) ← j.choice?
  if isKeptUnit data then Weekday.all.find? fun d => d.name = name else none

def minute? (j : Json) : Option Int := j.word?.map Int16.toInt

def count? (j : Json) : Option Nat :=
  j.int?.bind fun n => if 0 ≤ n ∧ n < capacity 32 then some n.toNat else none

def ofInterval (i : Interval) : Json :=
  ofFields [("day", ofDay i.day), ("start", ofInt i.start), ("end", ofInt i.stop)]

def interval? (j : Json) : Option Interval := do
  match ← j.record? ["day", "start", "end"] with
  | [day, start, stop] => return ⟨← day.day?, ← start.minute?, ← stop.minute?⟩
  | _ => none

end Json

def IntervalError.toJson : IntervalError → Json
  | dayOutOfRange d => .ofFields [("DayOutOfRange", .ofWord d)]
  | minuteOutOfRange m => .ofFields [("MinuteOutOfRange", .ofWord m)]
  | notIncreasing i o =>
    .ofFields [("NotIncreasing", .ofFields [("in_time", .ofWord i), ("out_time", .ofWord o)])]

def IntervalError.ofJson? (j : Json) : Option IntervalError := do
  match ← j.choice? with
  | ("DayOutOfRange", some data) => data.word?.map dayOutOfRange
  | ("MinuteOutOfRange", some data) => data.word?.map minuteOutOfRange
  | ("NotIncreasing", some data) =>
    match ← data.record? ["in_time", "out_time"] with
    | [i, o] => return notIncreasing (← i.word?) (← o.word?)
    | _ => none
  | _ => none

def Refusal.toJson : Refusal → Json
  | invalidInterval cause => .ofFields [("invalid_interval", cause.toJson)]
  | unknownMember => .ofText "unknown_member"

def Refusal.ofJson? (j : Json) : Option Refusal := do
  match ← j.choice? with
  | ("invalid_interval", some data) => (IntervalError.ofJson? data).map invalidInterval
  | ("unknown_member", data) => if Json.isUnit data then some unknownMember else none
  | _ => none

def Rejection.toJson (r : Rejection) : Json :=
  .ofFields [("shift_id", .ofUuid r.shift), ("member_id", .ofUuid r.member),
    ("reason", r.reason.toJson)]

def Rejection.ofJson? (j : Json) : Option Rejection := do
  match ← j.record? ["shift_id", "member_id", "reason"] with
  | [shift, member, reason] =>
    return ⟨← shift.uuid?, ← member.uuid?, ← Refusal.ofJson? reason⟩
  | _ => none

def Conflict.fields (c : Conflict) : List (String × Json) :=
  [("member_id", .ofUuid c.member), ("day", .ofDay c.day), ("first", .ofUuid c.first),
    ("second", .ofUuid c.second), ("overlap", .ofInterval c.overlap)]

def Conflict.ofJson? (j : Json) : Option Conflict := do
  match ← j.record? ["member_id", "day", "first", "second", "overlap"] with
  | [member, day, first, second, overlap] =>
    return ⟨← member.uuid?, ← day.day?, ← first.uuid?, ← second.uuid?, ← overlap.interval?⟩
  | _ => none

def Shortage.fields (v : Shortage) : List (String × Json) :=
  [("project_id", .ofUuid v.project), ("day", .ofDay v.day), ("window", .ofInterval v.window),
    ("required", .ofNat v.required), ("actual", .ofNat v.actual),
    ("shortfall", .ofNat v.shortfall)]

def Shortage.ofJson? (j : Json) : Option Shortage := do
  match ← j.record? ["project_id", "day", "window", "required", "actual", "shortfall"] with
  | [project, day, window, required, actual, shortfall] =>
    return ⟨← project.uuid?, ← day.day?, ← window.interval?, ← required.count?,
      ← actual.count?, ← shortfall.count?⟩
  | _ => none

def Finding.toJson : Finding → Json
  | conflict c => .ofFields (("kind", .ofText "conflict") :: c.fields)
  | shortage v => .ofFields (("kind", .ofText "ratio_violation") :: v.fields)

/-- The levels of arrays and objects that a finding may have: those of a document, less the two that
are around it. -/
def Finding.levels : Nat := 125

def Finding.ofJson? (j : Json) : Option Finding := do
  let (kind, rest) ← j.tagged? "kind"
  if !rest.keepable levels then none
  else
    match kind with
    | "conflict" => (Conflict.ofJson? rest).map conflict
    | "ratio_violation" => (Shortage.ofJson? rest).map shortage
    | _ => none

namespace Report

def toJson (r : Report) : Json :=
  .ofFields [("findings", .array (r.findings.map Finding.toJson)),
    ("rejected", .array (r.rejected.map Rejection.toJson))]

def ofJson? (j : Json) : Option Report := do
  match ← j.record? ["findings", "rejected"] with
  | [findings, rejected] =>
    return ⟨← (← findings.items?).mapM Finding.ofJson?,
      ← (← rejected.items?).mapM Rejection.ofJson?⟩
  | _ => none

def text (r : Report) : String := String.ofList (r.toJson.pretty 0)

def ofText? (s : String) : Option Report := do
  let j ← (Json.parse s.toList).toOption
  ofJson? j

end Report

end NurseryRota
