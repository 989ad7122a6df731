import NurseryRota.Proofs.JsonRecords
import NurseryRota.Proofs.RejectedRuns

/-!
# Lines of edits read back

An edit is read from its own line, and from every line that says the same: its fields may stand in any
order, with blanks between the words and other fields of any value beside them.  A line with the name
of the edit that lacks a field of it, or has one twice, is no edit.
-/

namespace NurseryRota.Edit

open Json

/-- What happens, as it is written. -/
def alternative : Edit → String
  | memberRegistered _ _ => "MemberRegistered"
  | memberRemoved _ => "MemberRemoved"
  | shiftAdded _ => "ShiftAdded"
  | shiftUpdated _ => "ShiftUpdated"
  | shiftRemoved _ => "ShiftRemoved"

def fields : Edit → List (String × Json)
  | memberRegistered id m =>
    [("id", .ofUuid id), ("project_id", .ofUuid m.project), ("kind", m.role.toJson)]
  | memberRemoved id => [("id", .ofUuid id)]
  | shiftAdded b | shiftUpdated b =>
    [("id", .ofUuid b.id), ("member_id", .ofUuid b.member), ("day", .ofWord b.day),
      ("in_time", .ofWord b.inTime), ("out_time", .ofWord b.outTime)]
  | shiftRemoved id => [("id", .ofUuid id)]

/-- The edit with other fields than its own. -/
def withFields (e : Edit) (fields : List (JsonText × Json)) : Json :=
  object [(some e.alternative.toList, object fields)]

theorem toJson_eq (e : Edit) : e.toJson = e.withFields (namedFields e.fields) := by
  cases e <;> rfl

theorem nodup_fields (e : Edit) : (e.fields.map Prod.fst).Nodup := by
  cases e <;> simp [fields]

theorem choice?_withFields (e : Edit) (fields : List (JsonText × Json)) :
    choice? (e.withFields fields) = some (e.alternative, some (object fields)) := by
  simp [withFields, choice?]

theorem ofJson?_withFields {e : Edit} {fields : List (JsonText × Json)}
    (h : Extends e.fields fields) : ofJson? (e.withFields fields) = some e := by
  have hrecord := h.record?_eq e.nodup_fields
  rw [ofJson?, choice?_withFields]
  cases e with
  | memberRegistered id m =>
      simp only [Edit.fields, List.map_cons, List.map_nil] at hrecord
      simp [alternative, hrecord]
  | memberRemoved id | shiftRemoved id =>
      simp only [Edit.fields, List.map_cons, List.map_nil] at hrecord
      simp [alternative, onlyId?, hrecord]
  | shiftAdded b | shiftUpdated b =>
      simp only [Edit.fields, List.map_cons, List.map_nil] at hrecord
      simp [alternative, Booking.ofJson?, Booking.fieldNames, hrecord]

theorem ofJson?_eq_none {e : Edit} {fields : List (JsonText × Json)}
    (hrecord : record? (e.fields.map Prod.fst) (object fields) = none) :
    ofJson? (e.withFields fields) = none := by
  rw [ofJson?, choice?_withFields]
  cases e with
  | memberRegistered id m =>
      simp only [Edit.fields, List.map_cons, List.map_nil] at hrecord
      simp [alternative, hrecord]
  | memberRemoved id | shiftRemoved id =>
      simp only [Edit.fields, List.map_cons, List.map_nil] at hrecord
      simp [alternative, onlyId?, hrecord]
  | shiftAdded b | shiftUpdated b =>
      simp only [Edit.fields, List.map_cons, List.map_nil] at hrecord
      simp [alternative, Booking.ofJson?, Booking.fieldNames, hrecord]

theorem proper_toJson (e : Edit) : Proper e.toJson := by
  have hrole : ∀ r : Role, Proper r.toJson := by
    intro r
    cases r with
    | staff => exact proper_ofText _
    | child b => simp [Role.toJson, ofBand]
  cases e <;> simp [toJson, Booking.toJson, ofUuid, ofWord, hrole]

/-! ## Lines -/

variable {e : Edit} {cs : List Char} {fields : List (JsonText × Json)}

theorem ofLine?_of_denotes {v : Json} (h : Denotes cs v) :
    ofLine? (String.ofList cs) = ofJson? v := by
  rw [ofLine?, String.toList_ofList, parse_eq_ok_iff.mpr h]
  rfl

/-- A line that holds an object is not skipped. -/
theorem isBlank_eq_false_of_denotes (h : Denotes cs (object fields)) :
    Blank.isBlank cs = false := by
  obtain @⟨before, cs, after, _, opening, closing, spelled⟩ := h
  have hbrace : '{' ∈ cs := by
    cases spelled with
    | emptyObject blank | object nonempty named denoted => simp
  rw [Blank.isBlank, List.all_eq_false]
  exact ⟨'{', by simp [hbrace], by decide⟩

/-- An edit is read back from its own line, and from every text of its fields in any order, with blanks
and unknown fields among them; where one of its fields is missing or repeated, the line is no edit. -/
theorem lines_read_back (e : Edit) (path : String) (number : Nat) (rest : List (List Char)) :
    ofLine? e.line = some e ∧
      ∀ cs fields, Denotes cs (e.withFields fields) →
        (Extends e.fields fields →
          ofLine? (String.ofList cs) = some e ∧
            Command.editsOf path number (cs :: rest) =
              (Command.editsOf path (number + 1) rest).map (e :: ·)) ∧
        ∀ name ∈ e.fields.map Prod.fst, (valuesOf name fields).length ≠ 1 →
          ofLine? (String.ofList cs) = none ∧
            Command.editsOf path number (cs :: rest) = .error (.badEdit path number) := by
  refine ⟨?_, ?_⟩
  · rw [line, ofLine?_of_denotes e.proper_toJson.spelled_compact.denotes, toJson_eq]
    exact ofJson?_withFields (Extends.refl _)
  · intro cs fields h
    have hblank := isBlank_eq_false_of_denotes h
    have hread := ofLine?_of_denotes h
    refine ⟨?_, ?_⟩
    · intro hextends
      rw [ofJson?_withFields hextends] at hread
      refine ⟨hread, ?_⟩
      rw [Command.editsOf, hblank, hread]
      rfl
    · intro name hname hcount
      rw [ofJson?_eq_none (record?_eq_none hname hcount)] at hread
      refine ⟨hread, ?_⟩
      rw [Command.editsOf, hblank, hread]
      rfl

theorem denotes_spaced (h : Proper (object fields)) :
    Denotes ('{' :: quoted (some e.alternative.toList) ++ ":\t".toList ++ (object fields).compact ++
      " \x7d".toList) (e.withFields fields) := by
  have hvalue : Denotes (['\t'] ++ (object fields).compact ++ [' ']) (object fields) :=
    .padded (by simp [Blanks, isBlank]) (by simp [Blanks, isBlank]) h.spelled_compact
  have hname := (spelled_quoted (some e.alternative.toList)).denotes
  have hspelled := @Spelled.object [⟨_, _, _, _⟩] (by simp) (by simpa using hname)
    (by simpa using hvalue)
  simpa [Field.chars, Field.entry, withFields] using hspelled.denotes

/-- With a note and its fields turned around a registration is read; without its project, and with a
second id in place of it, it is not. -/
theorem lines_read_back_registration :
    ofLine? (String.ofList ('{' :: quoted (some "MemberRegistered".toList) ++ ":\t".toList ++
        (object [(some "note".toList, .array [.object [(some "id".toList, .null)]]),
          (some "kind".toList, Role.staff.toJson), (some "project_id".toList, .ofUuid (.ofNat 9)),
          (some "id".toList, .ofUuid (.ofNat 7))]).compact ++ " \x7d".toList)) =
      some (memberRegistered (.ofNat 7) ⟨.ofNat 9, .staff⟩) ∧
    ofLine? (String.ofList ('{' :: quoted (some "MemberRegistered".toList) ++ ":\t".toList ++
        (object [(some "kind".toList, Role.staff.toJson), (some "id".toList, .ofUuid (.ofNat 9)),
          (some "id".toList, .ofUuid (.ofNat 7))]).compact ++ " \x7d".toList)) = none := by
  have hread := (lines_read_back (memberRegistered (.ofNat 7) ⟨.ofNat 9, .staff⟩) "" 1 []).2
  constructor
  · refine ((hread _ _ (denotes_spaced ?_)).1 ?_).1
    · have hnote : Proper (.array [.object [(some "id".toList, .null)]]) :=
        .array (by simp [Proper.null])
      simpa [Role.toJson, ofUuid] using hnote
    · have horder := List.reverse_perm
        (namedFields (memberRegistered (.ofNat 7) ⟨.ofNat 9, .staff⟩).fields ++
          [(some "note".toList, .array [.object [(some "id".toList, .null)]])])
      exact .mk horder (by simp [fields, plain?])
  · refine ((hread _ _ (denotes_spaced ?_)).2 "project_id" ?_ ?_).1
    · simp [Role.toJson, ofUuid]
    · simp [fields]
    · simp [valuesOf, plain?]

end NurseryRota.Edit
