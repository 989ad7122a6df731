import NurseryRota.Bytes
import NurseryRota.Proofs.JsonRecords
import NurseryRota.Proofs.RatioReading
import NurseryRota.Report.Json

/-!
# Reports read back

The text of a report says all of it.  Each part of a report is read back from what it is written as, and
so is the report, with its findings and rejections in their order; reports with one text are one report.
A finding is kept until its kind is known, so what it is written as must also be fit to be kept.
-/

namespace NurseryRota

/-! ## Values that are kept -/

namespace Json

variable {fields : List (String × Json)} {levels : Nat}

theorem keepableFields_eq_true_iff {fields : List (JsonText × Json)} :
    keepableFields levels fields = true ↔
      ∀ f ∈ fields, f.1.isSome = true ∧ f.2.keepable levels = true := by
  induction fields with
  | nil => simp [keepableFields]
  | cons f fields ih => simp [keepableFields, ih]

@[simp] theorem keepable_ofFields : (ofFields fields).keepable (levels + 1) = true ↔
    ∀ f ∈ fields, f.2.keepable levels = true := by
  change (object (namedFields fields)).keepable (levels + 1) = true ↔ _
  rw [keepable, Nat.add_sub_cancel, decide_eq_true (Nat.succ_pos levels), Bool.true_and,
    keepableFields_eq_true_iff, namedFields, List.forall_mem_map]
  simp

@[simp] theorem keepable_ofText (s : String) : (ofText s).keepable levels = true := by
  simp [ofText, keepable]

theorem keepable_ofNat {n : Nat} (hn : n < capacity 64) : (ofNat n).keepable levels = true := by
  have hvalue := (Numeral.value_eq_natural_iff (spellsNumeral_ofInt n)).mpr ⟨rfl, hn⟩
  rw [ofNat, ofInt, keepable, hvalue]
  rfl

/-! ## Days, counts and windows -/

@[simp] theorem day?_ofDay (d : Weekday) : day? (ofDay d) = some d := by
  cases d <;> rfl

theorem minute?_ofInt {n : Int} (hlow : -32768 ≤ n) (hhigh : n ≤ 32767) :
    minute? (ofInt n) = some n := by
  rw [minute?, word?, int?_ofInt, Option.bind_some, if_pos ⟨hlow, hhigh⟩, Option.map_some,
    Int16.toInt_ofInt_of_le hlow (by omega)]

theorem count?_ofNat {n : Nat} (hn : n < capacity 32) : count? (ofNat n) = some n := by
  have hcount : (0 : Int) ≤ n ∧ (n : Int) < (capacity 32 : Nat) := ⟨by omega, by omega⟩
  rw [count?, ofNat, int?_ofInt, Option.bind_some, if_pos hcount, Int.toNat_natCast]

theorem interval?_ofInterval {i : Interval} (h : i.Valid) : interval? (ofInterval i) = some i := by
  obtain ⟨hlow, hlt, hhigh⟩ := h
  have hday : minutesPerDay ≤ 32767 := by decide
  have hstart : minute? (ofInt i.start) = some i.start := minute?_ofInt (by omega) (by omega)
  have hstop : minute? (ofInt i.stop) = some i.stop := minute?_ofInt (by omega) (by omega)
  have hrecord := @record?_ofFields
    [("day", ofDay i.day), ("start", ofInt i.start), ("end", ofInt i.stop)] (by simp)
  simp only [List.map_cons, List.map_nil] at hrecord
  simp [interval?, ofInterval, hrecord, hstart, hstop]

/-- A time of day is written as a number that is no less than zero. -/
theorem keepable_ofInterval {i : Interval} (h : i.Valid) :
    (ofInterval i).keepable (levels + 1) = true := by
  obtain ⟨hlow, hlt, hhigh⟩ := h
  have hday : minutesPerDay < (capacity 64 : Nat) := by decide
  have htime : ∀ n : Int, 0 ≤ n → n ≤ minutesPerDay → (ofInt n).keepable levels = true := by
    intro n hn hle
    obtain ⟨k, rfl⟩ := Int.eq_ofNat_of_zero_le hn
    exact keepable_ofNat (by omega)
  rw [ofInterval, keepable_ofFields]
  simp [ofDay, htime i.start hlow (by omega), htime i.stop (by omega) hhigh]

end Json

/-! ## Rejections -/

@[simp] theorem IntervalError.ofJson?_toJson (e : IntervalError) : ofJson? e.toJson = some e := by
  cases e with
  | dayOutOfRange d | minuteOutOfRange m => simp [ofJson?, toJson]
  | notIncreasing i o =>
      have hrecord := @Json.record?_ofFields
        [("in_time", .ofWord i), ("out_time", .ofWord o)] (by simp)
      simp only [List.map_cons, List.map_nil] at hrecord
      simp [ofJson?, toJson, hrecord]

@[simp] theorem Refusal.ofJson?_toJson (r : Refusal) : ofJson? r.toJson = some r := by
  cases r with
  | invalidInterval cause => simp [ofJson?, toJson]
  | unknownMember => simp [ofJson?, toJson, Json.isUnit]

@[simp] theorem Rejection.ofJson?_toJson (r : Rejection) : ofJson? r.toJson = some r := by
  have hrecord := @Json.record?_ofFields
    [("shift_id", .ofUuid r.shift), ("member_id", .ofUuid r.member), ("reason", r.reason.toJson)]
    (by simp)
  simp only [List.map_cons, List.map_nil] at hrecord
  simp [ofJson?, toJson, hrecord]

/-! ## Findings -/

/-- The window is one of a day, and the counts have 32 bits. -/
inductive Finding.InRange : Finding → Prop
  | conflict {c : Conflict} (window : c.overlap.Valid) : InRange (conflict c)
  | shortage {v : Shortage} (window : v.window.Valid) (required : v.required < capacity 32)
      (actual : v.actual < capacity 32) (shortfall : v.shortfall < capacity 32) :
      InRange (shortage v)

theorem Conflict.ofJson?_fields {c : Conflict} (h : c.overlap.Valid) :
    ofJson? (.ofFields c.fields) = some c := by
  have hrecord := @Json.record?_ofFields c.fields (by simp [fields])
  simp only [fields, List.map_cons, List.map_nil] at hrecord
  simp [ofJson?, fields, hrecord, Json.interval?_ofInterval h]

theorem Shortage.ofJson?_fields {v : Shortage} (h : (Finding.shortage v).InRange) :
    ofJson? (.ofFields v.fields) = some v := by
  obtain _ | ⟨window, required, actual, shortfall⟩ := h
  have hrecord := @Json.record?_ofFields v.fields (by simp [fields])
  simp only [fields, List.map_cons, List.map_nil] at hrecord
  simp [ofJson?, fields, hrecord, Json.interval?_ofInterval window, Json.count?_ofNat required,
    Json.count?_ofNat actual, Json.count?_ofNat shortfall]

theorem Conflict.keepable_fields {c : Conflict} (h : c.overlap.Valid) :
    (Json.ofFields c.fields).keepable Finding.levels = true := by
  have hwindow := @Json.keepable_ofInterval 123 _ h
  simp [Finding.levels, fields, Json.ofUuid, Json.ofDay, hwindow]

theorem Shortage.keepable_fields {v : Shortage} (h : (Finding.shortage v).InRange) :
    (Json.ofFields v.fields).keepable Finding.levels = true := by
  obtain _ | ⟨window, required, actual, shortfall⟩ := h
  have hwindow := @Json.keepable_ofInterval 123 _ window
  have hcount : ∀ n, n < capacity 32 → (Json.ofNat n).keepable 124 = true := fun n hn =>
    Json.keepable_ofNat (Nat.lt_of_lt_of_le hn (by decide))
  simp [Finding.levels, fields, Json.ofUuid, Json.ofDay, hwindow, hcount, required, actual, shortfall]

namespace Finding

theorem ofJson?_toJson {f : Finding} (h : f.InRange) : ofJson? f.toJson = some f := by
  cases h with
  | @conflict c window =>
      have htagged := @Json.tagged?_ofFields c.fields "kind" "conflict" (by simp [Conflict.fields])
      simp [ofJson?, toJson, htagged, Conflict.keepable_fields window,
        Conflict.ofJson?_fields window]
  | @shortage v window required actual shortfall =>
      have h : (Finding.shortage v).InRange := .shortage window required actual shortfall
      have htagged := @Json.tagged?_ofFields v.fields "kind" "ratio_violation"
        (by simp [Shortage.fields])
      simp [ofJson?, toJson, htagged, Shortage.keepable_fields h, Shortage.ofJson?_fields h]

end Finding

/-! ## Reports -/

namespace Report

/-- Every window is one of a day, and every count has 32 bits. -/
def InRange (r : Report) : Prop := ∀ f ∈ r.findings, f.InRange

variable {r : Report}

theorem ofJson?_toJson (h : r.InRange) : ofJson? r.toJson = some r := by
  have hfindings : (r.findings.map Finding.toJson).mapM Finding.ofJson? =
      some (r.findings.map id) := mapM_map_eq_some fun f hf => Finding.ofJson?_toJson (h f hf)
  have hrejected : (r.rejected.map Rejection.toJson).mapM Rejection.ofJson? =
      some (r.rejected.map id) := mapM_map_eq_some fun j _ => j.ofJson?_toJson
  have hrecord := @Json.record?_ofFields [("findings", .array (r.findings.map Finding.toJson)),
    ("rejected", .array (r.rejected.map Rejection.toJson))] (by simp)
  simp only [List.map_cons, List.map_nil] at hrecord
  simp only [List.map_id] at hfindings hrejected
  simp [ofJson?, toJson, hrecord, Json.items?, hfindings, hrejected]

theorem proper_toJson (r : Report) : Json.Proper r.toJson := by
  have hinterval : ∀ i : Interval, Json.Proper (.ofInterval i) := by
    intro i
    simp [Json.ofInterval, Json.ofDay]
  have hfinding : ∀ f : Finding, Json.Proper f.toJson := by
    intro f
    cases f <;> simp [Finding.toJson, Conflict.fields, Shortage.fields, Json.ofUuid, Json.ofDay,
      Json.ofNat, hinterval]
  have hcause : ∀ e : IntervalError, Json.Proper e.toJson := by
    intro e
    cases e <;> simp [IntervalError.toJson, Json.ofWord]
  have hreason : ∀ r : Refusal, Json.Proper r.toJson := by
    intro r
    cases r <;> simp [Refusal.toJson, hcause]
  simp [toJson, Rejection.toJson, Json.ofUuid, hfinding, hreason]

/-- A report is read from every text of what it is written as, however that is laid out. -/
theorem ofText?_of_denotes {cs : List Char} (hr : r.InRange) (h : Json.Denotes cs r.toJson) :
    ofText? (String.ofList cs) = some r := by
  rw [ofText?, String.toList_ofList, Json.parse_eq_ok_iff.mpr h]
  exact ofJson?_toJson hr

theorem denotes_text (r : Report) : Json.Denotes r.text.toList r.toJson := by
  rw [text, String.toList_ofList]
  exact (r.proper_toJson.spelled_pretty 0).denotes

/-- The text of a report is one of its value, and is read as that report, with all that it lists in its
order; so only one report has that text. -/
theorem text_faithful (r : Report) (hr : r.InRange) :
    Json.Denotes r.text.toList r.toJson ∧ ofText? r.text = some r ∧
      ∀ s : Report, s.InRange → (Bytes.ofText r.text = Bytes.ofText s.text ↔ r = s) := by
  have hread : ∀ s : Report, s.InRange → ofText? s.text = some s := by
    intro s hs
    have hsame := ofText?_of_denotes hs s.denotes_text
    rwa [String.ofList_toList] at hsame
  refine ⟨r.denotes_text, hread r hr, ?_⟩
  intro s hs
  constructor
  · intro hbytes
    have hsame := hread r hr
    rw [Bytes.ofText_inj.mp hbytes, hread s hs] at hsame
    exact (Option.some.inj hsame).symm
  · rintro rfl
    rfl

/-- Findings of both kinds, and rejections for each of the reasons with the same number in them. -/
theorem text_faithful_each_kind :
    let c : Finding := .conflict ⟨.ofNat 1, .monday, .ofNat 2, .ofNat 3, ⟨.monday, 540, 600⟩⟩
    let v : Finding := .shortage ⟨.ofNat 1, .monday, ⟨.monday, 540, 600⟩, 2, 1, 1⟩
    let rejected : List Rejection := [⟨.ofNat 4, .ofNat 1, .invalidInterval (.dayOutOfRange 9)⟩,
      ⟨.ofNat 4, .ofNat 1, .invalidInterval (.minuteOutOfRange 9)⟩,
      ⟨.ofNat 4, .ofNat 1, .invalidInterval (.notIncreasing 9 9)⟩,
      ⟨.ofNat 4, .ofNat 1, .unknownMember⟩]
    ofText? (Report.mk [c, v] rejected).text = some ⟨[c, v], rejected⟩ ∧
      Bytes.ofText (Report.mk [c, v] rejected).text ≠
        Bytes.ofText (Report.mk [v, c] rejected).text := by
  intro c v rejected
  have hc : c.InRange := .conflict (by decide)
  have hv : v.InRange := .shortage (by decide) (by decide) (by decide) (by decide)
  have hboth : (Report.mk [c, v] rejected).InRange := by
    simpa [InRange] using And.intro hc hv
  have hturned : (Report.mk [v, c] rejected).InRange := by
    simpa [InRange] using And.intro hv hc
  obtain ⟨-, hread, hinjective⟩ := text_faithful ⟨[c, v], rejected⟩ hboth
  refine ⟨hread, ?_⟩
  intro hbytes
  have hsame := (hinjective ⟨[v, c], rejected⟩ hturned).mp hbytes
  have hfirst : c = v := (List.cons.inj (congrArg Report.findings hsame)).1
  simp [c, v] at hfirst

end Report

end NurseryRota
