import NurseryRota.Proofs.WeekByProject

/-!
# Passes over a member and over a day

A pass over one member files the bookings of this member only and looks at no ratios; a pass over a
day leaves the bookings of other days out before they are filed.  Both report what a pass over the
week reports of the member, or of the day: the same entries in the same order.

A rejection is of the day that its booking is stored against, whether or not the booking has an
interval.
-/

namespace NurseryRota

/-! ## Reports -/

def Finding.isConflictOf (m : MemberId) (f : Finding) : Bool :=
  f.conflict?.any fun c => c.member = m

namespace Report

/-- The conflicts and the rejections of a member. -/
def ofMember (r : Report) (m : MemberId) : Report :=
  ⟨r.findings.filter (Finding.isConflictOf m), r.rejected.filter fun e => e.member = m⟩

/-- The findings on a day, and the rejections of the bookings that are stored against it. -/
def onDay (r : Report) (rota : Rota) (d : Weekday) : Report :=
  ⟨r.findings.filter fun f => f.window.day = d,
    r.rejected.filter fun e => (rota.shifts.get? e.shift).any fun b => b.day = d.number⟩

theorem ofMember_ofEntries (findings : List Finding) (rejected : List Rejection) (m : MemberId) :
    (ofEntries findings rejected).ofMember m =
      ofEntries (findings.filter (Finding.isConflictOf m))
        (rejected.filter fun e => e.member = m) := by
  unfold ofMember ofEntries
  rw [sortBy_filter, sortBy_filter]

theorem onDay_ofEntries (findings : List Finding) (rejected : List Rejection) (rota : Rota)
    (d : Weekday) : (ofEntries findings rejected).onDay rota d =
      ofEntries (findings.filter fun f => f.window.day = d) (rejected.filter fun e =>
        (rota.shifts.get? e.shift).any fun b => b.day = d.number) := by
  unfold onDay ofEntries
  rw [sortBy_filter, sortBy_filter]

end Report

/-! ## A member's bookings -/

def Roster.ofMember (roster : Roster) (m : MemberId) : Roster := roster.filter fun id _ => id = m

theorem Intake.staff_ofSnapshot (s : Snapshot) (roster : Roster) :
    (Intake.ofSnapshot s roster).staff =
      (Team.ofFiled (sortBy Filed.key (s.filed roster))).staff := by
  unfold staff
  rw [Snapshot.teams_ofSnapshot, List.flatMap_map]
  unfold Team.ofFiled Snapshot.groups
  rw [← List.filterMap_flatMap, flatMap_stretches]

theorem Team.filter_findings (t : Team) (project : ProjectId) (rules : Rules) (policy : Policy)
    (m : MemberId) : (t.findings project rules policy).filter (Finding.isConflictOf m) =
      (conflicts (t.staff.filter fun s => s.member = m)).map .conflict := by
  have hconflicts : Finding.isConflictOf m ∘ Finding.conflict = fun c => decide (c.member = m) := by
    funext c
    simp [Finding.isConflictOf, Finding.conflict?]
  have hshortages : Finding.isConflictOf m ∘ Finding.shortage = fun _ => false := by
    funext v
    simp [Finding.isConflictOf, Finding.conflict?]
  unfold findings
  rw [List.filter_append, List.filter_map, List.filter_map, hconflicts, hshortages,
    List.filter_false, List.map_nil, List.append_nil, conflicts_filter_member]

namespace Snapshot

variable (s : Snapshot) (roster : Roster) (m : MemberId)

def ofMember : Snapshot := s.filter fun b => b.member = m

variable {s roster m}

theorem get?_of_mem_ofMember : ∀ b ∈ s.bookings, decide (b.member = m) = true →
    (roster.ofMember m).get? b.member = roster.get? b.member := by
  intro b _ hkept
  have hmember : b.member = m := by simpa using hkept
  unfold Roster.ofMember
  rw [Table.get?_filter]
  cases roster.get? b.member with
  | none => rfl
  | some e => simp [hmember]

theorem filed_ofMember : (s.ofMember m).filed (roster.ofMember m) =
    (s.filed roster).filter fun f => f.shift.member = m := by
  apply filed_filter get?_of_mem_ofMember
  intro b _ f hfile
  obtain ⟨i, e, -, -, rfl⟩ := Booking.file_eq_ok_iff.mp hfile
  rfl

theorem refused_ofMember : (s.ofMember m).refused (roster.ofMember m) =
    (s.refused roster).filter fun e => e.member = m := by
  apply refused_filter get?_of_mem_ofMember
  intro b _ e hfile
  rw [Booking.member_of_file_error hfile]

/-- A member's bookings are all filed under one project. -/
theorem project_eq_of_member {f g : Filed} (hf : f ∈ s.filed roster) (hg : g ∈ s.filed roster)
    (hmember : f.shift.member = g.shift.member) : f.enrolment.project = g.enrolment.project := by
  have henrolled := get?_of_mem_filed hf
  rw [hmember, get?_of_mem_filed hg, Option.some.injEq] at henrolled
  rw [henrolled]

theorem filter_findings_member {rules : Rules} {policy : Policy} :
    (s.findings roster rules policy).filter (Finding.isConflictOf m) =
      (conflicts ((Intake.ofSnapshot s roster).staff.filter fun x => x.member = m)).map
        .conflict := by
  have hsame : ∀ f ∈ (sortBy Filed.key (s.filed roster)).filter
        (fun f => decide (f.shift.member = m)),
      ∀ g ∈ (sortBy Filed.key (s.filed roster)).filter fun f => decide (f.shift.member = m),
        f.enrolment.project = g.enrolment.project := by
    intro f hf g hg
    simp only [List.mem_filter, mem_sortBy, decide_eq_true_eq] at hf hg
    exact project_eq_of_member hf.1 hg.1 (hf.2.trans hg.2.symm)
  have hascend := labelsAscend_project (s.filed roster)
  have hempty : (conflicts (Team.ofFiled []).staff).map Finding.conflict = [] := by
    rw [show (Team.ofFiled []).staff = [] from rfl, conflicts_nil]
    rfl
  have hteam : ∀ fs : List Filed, ((Team.ofFiled fs).staff.filter fun x => decide (x.member = m)) =
      (Team.ofFiled (fs.filter fun f => decide (f.shift.member = m))).staff := fun fs =>
    (congrArg Team.staff (Team.ofFiled_filter fs fun x => x.member = m)).symm
  have hgroups := flatMap_stretches_filter projectRank_injective hascend
    (fun f => decide (f.shift.member = m))
    (fun _ fs => (conflicts (Team.ofFiled fs).staff).map Finding.conflict) fun _ => hempty
  rw [flatMap_stretches_of_same projectRank_injective (hascend.filter _) hsame
    (fun fs => (conflicts (Team.ofFiled fs).staff).map Finding.conflict) hempty] at hgroups
  rw [Intake.staff_ofSnapshot, hteam, hgroups]
  unfold findings
  rw [List.filter_flatMap]
  apply List.flatMap_congr
  intro g _
  rw [Team.filter_findings, hteam]

theorem filter_member_staff : (Intake.ofSnapshot (s.ofMember m) (roster.ofMember m)).staff.filter
      (fun x => decide (x.member = m)) =
    (Intake.ofSnapshot s roster).staff.filter fun x => x.member = m := by
  have hfiled := congrArg Team.staff (Team.ofFiled_filter (sortBy Filed.key (s.filed roster))
    fun x => decide (x.member = m))
  rw [Intake.staff_ofSnapshot, Intake.staff_ofSnapshot, filed_ofMember, sortBy_filter, hfiled,
    List.filter_filter]
  simp

/-- The report on a member alone is what the report on everybody says of the member. -/
theorem ofEntries_ofMember {rules : Rules} {policy : Policy} :
    let intake := Intake.ofSnapshot (s.ofMember m) (roster.ofMember m)
    Report.ofEntries ((conflicts (intake.staff.filter fun x => x.member = m)).map .conflict)
        intake.rejected = (s.reportOf roster rules policy).ofMember m := by
  intro intake
  have hrejected : intake.rejected = (s.ofMember m).refused (roster.ofMember m) := rfl
  unfold reportOf
  rw [Report.ofMember_ofEntries, filter_findings_member, hrejected, refused_ofMember,
    filter_member_staff]

end Snapshot

/-! ## Passes -/

namespace Rota

variable {r : Rota}

theorem view_member (r : Rota) (m : MemberId) : r.view (.member m) =
    ⟨(r.view .all).shifts.ofMember m, r.roster.ofMember m⟩ := by
  have hshifts : (r.view (.member m)).shifts = (r.view .all).shifts.ofMember m :=
    Snapshot.ofBookings_filter r.shifts.values _
  rw [← hshifts]
  rfl

theorem get?_of_mem_view (hkeyed : r.shifts.Keyed) {b : Booking}
    (hb : b ∈ (r.view .all).shifts.bookings) : r.shifts.get? b.id = some b := by
  have hvalues : b ∈ r.shifts.values := mem_sortBy.mp hb
  obtain ⟨⟨id, c⟩, hentry, rfl⟩ := List.mem_map.mp hvalues
  have hget : r.shifts.get? id = some c := Table.get?_eq_some_iff.mpr hentry
  rw [hkeyed id c hget]
  exact hget

theorem refused_onDay (hkeyed : r.shifts.Keyed) (d : Weekday) :
    ((r.view .all).shifts.onDay d).refused r.roster = ((r.view .all).shifts.refused r.roster).filter
      fun e => (r.shifts.get? e.shift).any fun b => b.day = d.number := by
  refine Snapshot.refused_filter (fun _ _ _ => rfl) ?_
  intro b hb e hfile
  rw [Booking.id_of_file_error hfile, get?_of_mem_view hkeyed hb]
  rfl

theorem reportOf_onDay (hkeyed : r.shifts.Keyed) (d : Weekday) {rules : Rules} {policy : Policy} :
    ((r.view .all).shifts.onDay d).reportOf r.roster rules policy =
      ((r.view .all).shifts.reportOf r.roster rules policy).onDay r d := by
  unfold Snapshot.reportOf
  rw [Report.onDay_ofEntries, Snapshot.findings_onDay, refused_onDay hkeyed]

end Rota

namespace Validator

variable {v : Validator} {r : Rota} {report : Report} {m : Metrics}

theorem validateMember_eq_ok (h : (v.validate r.source m).1 = .ok report) (member : MemberId)
    (m' : Metrics) :
    (v.validateMember r.source member m').1 = .ok (report.ofMember member) := by
  obtain ⟨hlimit, -, rfl⟩ := validate_source_eq_ok_iff.mp h
  have hsize : ((r.view .all).shifts.ofMember member).size ≤ (r.view .all).shifts.size :=
    Snapshot.size_filter_le _ _
  have hview : r.source (.member member) =
      .ok ⟨(r.view .all).shifts.ofMember member, r.roster.ofMember member⟩ :=
    congrArg Except.ok (r.view_member member)
  unfold validateMember
  rw [outcome_pass hview]
  dsimp only
  rw [if_neg (by omega), Snapshot.ofEntries_ofMember]

theorem validateDay_eq_ok (hkeyed : r.shifts.Keyed) (h : (v.validate r.source m).1 = .ok report)
    (d : Weekday) (m' : Metrics) :
    (v.validateDay r.source d m').1 = .ok (report.onDay r d) := by
  obtain ⟨hlimit, hcheck, rfl⟩ := validate_source_eq_ok_iff.mp h
  have hview : r.source .all = .ok (r.view .all) := rfl
  unfold validateDay
  rw [outcome_pass hview, if_neg (by omega), check_eq_ok_iff]
  exact (Snapshot.validate_eq_ok (Snapshot.checkable_iff_onDay.mp hcheck d)).trans
    (congrArg Except.ok (Rota.reportOf_onDay hkeyed d))

/-- A pass over a member reports, in order, the conflicts and the rejections that a pass over the
week has of the member, and a pass over a day the findings on the day and the rejections of the
bookings stored against it. -/
theorem member_and_day_passes (v : Validator) (edits : List Edit) (m m' : Metrics) :
    let r := Rota.ofHistory edits
    let whole := (v.validate r.source m).1
    (v.rules.Accepted → r.shiftCount < capacity 32 → r.shiftCount ≤ v.maxShifts →
        Succeeds whole) ∧
      ∀ report, whole = .ok report →
        (∀ member, (v.validateMember r.source member m').1 = .ok (report.ofMember member)) ∧
        ∀ d, (v.validateDay r.source d m').1 = .ok (report.onDay r d) := by
  intro r whole
  have hkeyed : r.shifts.Keyed := Rota.keyed_ofHistory edits
  constructor
  · intro hrules hsize hlimit
    exact succeeds_validate hrules hsize hlimit m
  · intro report hreport
    exact ⟨fun member => validateMember_eq_ok hreport member m',
      fun d => validateDay_eq_ok hkeyed hreport d m'⟩

/-- A double booking of a member of staff and one of a child, a booking that ends before it starts,
and one of a member whom nobody registered. -/
theorem member_and_day_passes_mixed :
    let v : Validator := ⟨⟨3, 4, 8⟩, .pooled, 6⟩
    let edits : List Edit := [.memberRegistered (.ofNat 7) ⟨.ofNat 3, .staff⟩,
      .memberRegistered (.ofNat 8) ⟨.ofNat 4, .child .underTwo⟩,
      .shiftAdded ⟨.ofNat 1, .ofNat 7, 4, 480, 720⟩, .shiftAdded ⟨.ofNat 2, .ofNat 7, 4, 700, 800⟩,
      .shiftAdded ⟨.ofNat 3, .ofNat 8, 4, 500, 600⟩, .shiftAdded ⟨.ofNat 4, .ofNat 8, 4, 550, 650⟩,
      .shiftAdded ⟨.ofNat 5, .ofNat 7, 4, 60, 0⟩, .shiftAdded ⟨.ofNat 6, .ofNat 9, 5, 0, 60⟩]
    let r := Rota.ofHistory edits
    ∃ report, (v.validate r.source .empty).1 = .ok report ∧
      (v.validateMember r.source (.ofNat 7) .empty).1 = .ok (report.ofMember (.ofNat 7)) ∧
      (v.validateMember r.source (.ofNat 8) .empty).1 = .ok (report.ofMember (.ofNat 8)) ∧
      (v.validateMember r.source (.ofNat 9) .empty).1 = .ok (report.ofMember (.ofNat 9)) ∧
      (v.validateDay r.source .thursday .empty).1 = .ok (report.onDay r .thursday) ∧
      (v.validateDay r.source .friday .empty).1 = .ok (report.onDay r .friday) := by
  intro v edits r
  have hpasses := member_and_day_passes v edits .empty .empty
  have hrules : v.rules.Accepted := by
    intro b
    cases b <;> decide
  obtain ⟨report, hreport⟩ := hpasses.1 hrules (by decide) (by decide)
  obtain ⟨hmembers, hdays⟩ := hpasses.2 report hreport
  exact ⟨report, hreport, hmembers _, hmembers _, hmembers _, hdays _, hdays _⟩

end Validator

end NurseryRota
