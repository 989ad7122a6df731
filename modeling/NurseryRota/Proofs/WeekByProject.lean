import NurseryRota.Proofs.ReportMeaning
import NurseryRota.Proofs.RotaHistory
import NurseryRota.Proofs.TableViews
import NurseryRota.Proofs.WeekByDay

/-!
# The week by projects

Projects share nothing but the rota they stand in.  What a pass over one project reports is what a
pass over the week reports of it, entry for entry; the projects and the bookings of unregistered
members together make up the week; and what other projects do cannot be told from the report of a
project.

A conflict belongs to the project that its member is registered in, a shortage to the project that
it names.
-/

namespace NurseryRota

/-! ## What belongs to a project -/

namespace Roster

def projectOf (roster : Roster) (m : MemberId) : Option ProjectId :=
  (roster.get? m).map Enrolment.project

/-- Somebody is registered in the project. -/
def HasProject (roster : Roster) (p : ProjectId) : Prop := ∃ m, roster.projectOf m = some p

variable {roster : Roster} {p : ProjectId} {m : MemberId}

theorem get?_ofProject (roster : Roster) (p : ProjectId) (m : MemberId) :
    (roster.ofProject p).get? m = if roster.projectOf m = some p then roster.get? m else none := by
  unfold ofProject projectOf
  rw [Table.get?_filter]
  cases roster.get? m with
  | none => rfl
  | some e => simp [Option.filter_some]

theorem contains_ofProject :
    (roster.ofProject p).contains m = decide (roster.projectOf m = some p) := by
  unfold Table.contains
  rw [get?_ofProject]
  by_cases hp : roster.projectOf m = some p
  · obtain ⟨e, he, -⟩ := Option.map_eq_some_iff.mp hp
    simp [hp, he]
  · simp [hp]

theorem hasProject_iff :
    roster.HasProject p ↔ p ∈ roster.values.map Enrolment.project := by
  simp only [HasProject, projectOf, Option.map_eq_some_iff, Table.values, List.map_map,
    List.mem_map, Table.get?_eq_some_iff]
  constructor
  · rintro ⟨m, e, he, rfl⟩
    exact ⟨(m, e), he, rfl⟩
  · rintro ⟨⟨m, e⟩, he, rfl⟩
    exact ⟨m, e, he, rfl⟩

end Roster

def Finding.projectOf (roster : Roster) : Finding → Option ProjectId
  | conflict c => roster.projectOf c.member
  | shortage v => some v.project

def Rejection.projectOf (roster : Roster) (e : Rejection) : Option ProjectId :=
  roster.projectOf e.member

namespace Report

/-- What a report says of a project. -/
def ofProject (r : Report) (roster : Roster) (p : ProjectId) : Report :=
  ⟨r.findings.filter fun f => f.projectOf roster = some p,
    r.rejected.filter fun e => e.projectOf roster = some p⟩

/-- The rejections of members that are in no project. -/
def unregistered (r : Report) (roster : Roster) : List Rejection :=
  r.rejected.filter fun e => e.projectOf roster = none

theorem ofProject_ofEntries (findings : List Finding) (rejected : List Rejection) (roster : Roster)
    (p : ProjectId) : (ofEntries findings rejected).ofProject roster p =
      ofEntries (findings.filter fun f => f.projectOf roster = some p)
        (rejected.filter fun e => e.projectOf roster = some p) := by
  unfold ofProject ofEntries
  rw [sortBy_filter, sortBy_filter]

end Report

theorem Finding.projectOf_of_key_eq (roster : Roster) (f g : Finding) (h : f.key = g.key) :
    f.projectOf roster = g.projectOf roster := by
  cases f with
  | conflict c =>
      cases g with
      | conflict c' =>
          simp only [key, SortKey.mk.injEq, List.cons.injEq] at h
          exact congrArg roster.projectOf (Uuid.rank_inj.mp h.2.2.2.2.1)
      | shortage v => exact absurd h (key_conflict_ne_shortage c v)
  | shortage v =>
      cases g with
      | conflict c => exact absurd h.symm (key_conflict_ne_shortage c v)
      | shortage v' => exact congrArg some (window_of_key_eq h).2.2

theorem Rejection.projectOf_of_key_eq (roster : Roster) (a b : Rejection) (h : a.key = b.key) :
    a.projectOf roster = b.projectOf roster := by
  simp only [key, SortKey.mk.injEq, List.cons.injEq, and_true] at h
  exact congrArg roster.projectOf (Uuid.rank_inj.mp h.2)

/-! ## Filing a project's bookings -/

namespace Booking

variable {roster : Roster} {p : ProjectId} {b : Booking}

theorem projectOf_of_file {f : Filed} (h : b.file roster = .ok f) :
    roster.projectOf b.member = some f.enrolment.project := by
  obtain ⟨i, e, -, hmember, rfl⟩ := file_eq_ok_iff.mp h
  unfold Roster.projectOf
  rw [hmember]
  rfl

end Booking

namespace Snapshot

variable (s : Snapshot) (roster : Roster) (p : ProjectId)

/-- The bookings of a project's members. -/
def ofProject : Snapshot := s.filter fun b => (roster.ofProject p).contains b.member

variable {s roster p}

theorem get?_of_mem_ofProject :
    ∀ b ∈ s.bookings, (roster.ofProject p).contains b.member = true →
      (roster.ofProject p).get? b.member = roster.get? b.member := by
  intro b _ hkept
  rw [Roster.contains_ofProject, decide_eq_true_eq] at hkept
  rw [Roster.get?_ofProject, if_pos hkept]

theorem filed_ofProject : (s.ofProject roster p).filed (roster.ofProject p) =
    (s.filed roster).filter fun f => f.enrolment.project = p := by
  apply filed_filter get?_of_mem_ofProject
  intro b _ f hfile
  rw [Roster.contains_ofProject, Booking.projectOf_of_file hfile]
  simp

theorem refused_ofProject : (s.ofProject roster p).refused (roster.ofProject p) =
    (s.refused roster).filter fun e => e.projectOf roster = some p := by
  apply refused_filter get?_of_mem_ofProject
  intro b _ e hfile
  rw [Roster.contains_ofProject, Rejection.projectOf, Booking.member_of_file_error hfile]

/-- A project alone has its own team and no other. -/
theorem groups_ofProject : (s.ofProject roster p).groups (roster.ofProject p) =
    (s.groups roster).filter fun g => g.1 = p := by
  -- All of a group is about one project, so leaving out the others keeps it whole or empties it.
  have hown : ∀ g ∈ s.groups roster, g.2.filter (fun f => decide (f.enrolment.project = p)) =
      if g.1 = p then g.2 else [] := by
    intro g hg
    have hlabel : ∀ f ∈ g.2, f.enrolment.project = g.1 := fun f hf =>
      ((mem_of_mem_groups hg).mp hf).2
    split
    · next hp =>
        rw [List.filter_eq_self]
        intro f hf
        simp [hlabel f hf, hp]
    · next hp =>
        rw [List.filter_eq_nil_iff]
        intro f hf
        simp [hlabel f hf, hp]
  have hgroups : (s.ofProject roster p).groups (roster.ofProject p) =
      ((s.groups roster).map fun g =>
        (g.1, g.2.filter fun f => f.enrolment.project = p)).filter fun g => g.2 ≠ [] := by
    unfold groups
    rw [filed_ofProject, sortBy_filter,
      stretches_filter projectRank_injective (labelsAscend_project _)]
  rw [hgroups, List.filter_map]
  have hkept : (s.groups roster).filter
      ((fun g : ProjectId × List Filed => decide (g.2 ≠ [])) ∘
        fun g => (g.1, g.2.filter fun f => decide (f.enrolment.project = p))) =
      (s.groups roster).filter fun g => g.1 = p := by
    apply List.filter_congr
    intro g hg
    have hfull := (mem_groups_iff.mp hg).1
    by_cases hp : g.1 = p <;> simp [hown g hg, hp, hfull]
  rw [hkept]
  conv_rhs => rw [← List.map_id ((s.groups roster).filter fun g => g.1 = p)]
  apply List.map_congr_left
  intro g hg
  obtain ⟨hmem, hp⟩ := List.mem_filter.mp hg
  have hp : g.1 = p := by simpa using hp
  rw [hown g hmem, if_pos hp]
  rfl

/-! ## Reports -/

variable {rules : Rules} {policy : Policy}

theorem projectOf_of_mem_findings (hdistinct : s.Distinct) {g : ProjectId × List Filed}
    (hg : g ∈ s.groups roster) {f : Finding}
    (hf : f ∈ (Team.ofFiled g.2).findings g.1 rules policy) : f.projectOf roster = some g.1 := by
  rcases Team.mem_findings.mp hf with ⟨c, hc, rfl⟩ | ⟨d, v, hv, rfl⟩
  · obtain ⟨x, hx, y, -, -, -, -, hconflict⟩ :=
      (mem_conflicts_iff (nodup_ids_staff hdistinct hg)).mp hc
    obtain ⟨k, hk, -, rfl⟩ := Team.mem_staff_ofFiled.mp hx
    obtain ⟨hfiled, hproject⟩ := (mem_of_mem_groups hg).mp hk
    have hmember : c.member = k.shift.member := by
      rw [(Shift.conflictWith_eq_some_iff.mp hconflict).2]
    unfold Finding.projectOf Roster.projectOf
    dsimp only
    rw [hmember, get?_of_mem_filed hfiled, ← hproject]
    rfl
  · exact congrArg some (Team.project_of_mem_shortagesOn v hv)

theorem hasProject_of_mem_findings (hdistinct : s.Distinct) {f : Finding}
    (hf : f ∈ s.findings roster rules policy) :
    ∃ p, f.projectOf roster = some p ∧ roster.HasProject p := by
  obtain ⟨g, hg, hf⟩ := mem_findings.mp hf
  refine ⟨g.1, projectOf_of_mem_findings hdistinct hg hf, ?_⟩
  obtain ⟨k, hk⟩ := List.exists_mem_of_ne_nil _ (mem_groups_iff.mp hg).1
  obtain ⟨hfiled, hproject⟩ := (mem_of_mem_groups hg).mp hk
  refine ⟨k.shift.member, ?_⟩
  unfold Roster.projectOf
  rw [get?_of_mem_filed hfiled, ← hproject]
  rfl

theorem findings_ofProject (hdistinct : s.Distinct) :
    (s.ofProject roster p).findings (roster.ofProject p) rules policy =
      (s.findings roster rules policy).filter fun f => f.projectOf roster = some p := by
  unfold findings
  rw [groups_ofProject, List.filter_flatMap]
  have hteam : ∀ g ∈ s.groups roster, ((Team.ofFiled g.2).findings g.1 rules policy).filter
      (fun f => decide (f.projectOf roster = some p)) =
        if g.1 = p then (Team.ofFiled g.2).findings g.1 rules policy else [] := by
    intro g hg
    have howner : ∀ f ∈ (Team.ofFiled g.2).findings g.1 rules policy,
        f.projectOf roster = some g.1 := fun f hf => projectOf_of_mem_findings hdistinct hg hf
    split
    · next hp =>
        rw [List.filter_eq_self]
        intro f hf
        simp [howner f hf, hp]
    · next hp =>
        rw [List.filter_eq_nil_iff]
        intro f hf
        simp [howner f hf, hp]
  rw [List.flatMap_congr hteam]
  induction s.groups roster with
  | nil => rfl
  | cons g groups ih =>
      by_cases hp : g.1 = p
      · simpa [hp] using ih
      · simpa [hp] using ih

theorem checkable_ofProject (h : s.Checkable roster rules policy) :
    (s.ofProject roster p).Checkable (roster.ofProject p) rules policy := by
  intro g hg
  rw [groups_ofProject] at hg
  exact h g (List.mem_of_mem_filter hg)

theorem reportOf_ofProject (hdistinct : s.Distinct) :
    (s.ofProject roster p).reportOf (roster.ofProject p) rules policy =
      (s.reportOf roster rules policy).ofProject roster p := by
  unfold reportOf
  rw [Report.ofProject_ofEntries, findings_ofProject hdistinct, refused_ofProject]

/-- The reports on all projects and the rejections of the unregistered make up the report. -/
theorem merge_ofProject (hdistinct : s.Distinct) {projects : List ProjectId}
    (hnodup : projects.Nodup) (hall : ∀ p, roster.HasProject p → p ∈ projects) :
    let whole := s.reportOf roster rules policy
    (Report.merge (projects.map (whole.ofProject roster))).addRejections
      (whole.unregistered roster) = whole := by
  intro whole
  have hfindings : sortBy Finding.key (projects.flatMap fun p =>
      whole.findings.filter fun f => f.projectOf roster = some p) = whole.findings := by
    have howners : ∀ f ∈ whole.findings, f.projectOf roster ∈ projects.map some := by
      intro f hf
      obtain ⟨p, hp, hproject⟩ := hasProject_of_mem_findings hdistinct (mem_sortBy.mp hf)
      rw [hp]
      exact List.mem_map_of_mem (hall p hproject)
    have hsort := sortBy_flatMap_filter (Finding.projectOf_of_key_eq roster)
      (hnodup.map (Option.some_injective _)) howners
    rw [List.flatMap_map] at hsort
    rw [hsort]
    exact sortBy_of_pairwise (pairwise_sortBy Finding.key _)
  have hrejected : sortBy Rejection.key ((projects.flatMap fun p =>
      whole.rejected.filter fun e => e.projectOf roster = some p) ++
        whole.unregistered roster) = whole.rejected := by
    have hlabels : (projects.map some ++ [none]).Nodup :=
      List.nodup_append.mpr ⟨hnodup.map (Option.some_injective _), by simp, by simp⟩
    have howners : ∀ e ∈ whole.rejected, e.projectOf roster ∈ projects.map some ++ [none] := by
      intro e _
      cases hp : e.projectOf roster with
      | none => simp
      | some p => simpa using hall p ⟨e.member, hp⟩
    have hsort := sortBy_flatMap_filter (Rejection.projectOf_of_key_eq roster) hlabels howners
    rw [List.flatMap_append, List.flatMap_map, List.flatMap_singleton] at hsort
    rw [Report.unregistered, hsort]
    exact sortBy_of_pairwise (pairwise_sortBy Rejection.key _)
  have hparts : Report.merge (projects.map (whole.ofProject roster)) =
      .ofEntries (projects.flatMap fun p =>
          whole.findings.filter fun f => f.projectOf roster = some p)
        (projects.flatMap fun p =>
          whole.rejected.filter fun e => e.projectOf roster = some p) := by
    unfold Report.merge
    rw [List.flatMap_map, List.flatMap_map]
    rfl
  rw [hparts, Report.addRejections_ofEntries, Report.ofEntries, hfindings, hrejected]

end Snapshot

/-! ## Passes -/

namespace Rota

variable {r r' : Rota} {p : ProjectId}

theorem view_project (r : Rota) (p : ProjectId) : r.view (.project p) =
    ⟨(r.view .all).shifts.ofProject r.roster p, r.roster.ofProject p⟩ := by
  have hshifts : (r.view (.project p)).shifts = (r.view .all).shifts.ofProject r.roster p :=
    Snapshot.ofBookings_filter r.shifts.values _
  rw [← hshifts]
  rfl

/-- Both rotas have the same members in the project, and the same bookings of these members. -/
structure AgreeOn (r r' : Rota) (p : ProjectId) : Prop where
  members : ∀ m e, e.project = p → (r.roster.get? m = some e ↔ r'.roster.get? m = some e)
  bookings : ∀ b, r.roster.projectOf b.member = some p →
    (r.shifts.get? b.id = some b ↔ r'.shifts.get? b.id = some b)

theorem AgreeOn.roster_eq (h : AgreeOn r r' p) : r.roster.ofProject p = r'.roster.ofProject p := by
  apply Table.ext_get?
  intro m
  ext e
  unfold Roster.ofProject
  rw [Table.get?_filter, Table.get?_filter, Option.filter_eq_some_iff, Option.filter_eq_some_iff]
  by_cases hp : e.project = p
  · rw [h.members m e hp]
  · simp [hp]

theorem AgreeOn.projectOf_iff (h : AgreeOn r r' p) (m : MemberId) :
    r.roster.projectOf m = some p ↔ r'.roster.projectOf m = some p := by
  have hcontains := congrArg (fun roster : Roster => roster.contains m) h.roster_eq
  simpa only [Roster.contains_ofProject, decide_eq_decide] using hcontains

theorem AgreeOn.view_eq (h : AgreeOn r r' p) (hr : r.shifts.Keyed) (hr' : r'.shifts.Keyed) :
    r.view (.project p) = r'.view (.project p) := by
  have hshifts : (r.shifts.filter fun _ b => (r.roster.ofProject p).contains b.member) =
      r'.shifts.filter fun _ b => (r'.roster.ofProject p).contains b.member := by
    apply Table.ext_get?
    intro id
    ext b
    rw [Table.get?_filter, Table.get?_filter, Option.filter_eq_some_iff,
      Option.filter_eq_some_iff, Roster.contains_ofProject, Roster.contains_ofProject,
      decide_eq_true_eq, decide_eq_true_eq, ← h.projectOf_iff]
    constructor
    · rintro ⟨hb, hp⟩
      obtain rfl := hr id b hb
      exact ⟨(h.bookings b hp).mp hb, hp⟩
    · rintro ⟨hb, hp⟩
      obtain rfl := hr' id b hb
      exact ⟨(h.bookings b hp).mpr hb, hp⟩
  have hvalues := congrArg Table.values hshifts
  rw [Table.values_filter, Table.values_filter] at hvalues
  unfold view
  dsimp only
  rw [hvalues, h.roster_eq]

end Rota

namespace Validator

variable {v : Validator} {r : Rota} {p : ProjectId}

theorem outcome_validateProject (v : Validator) (r : Rota) (p : ProjectId) (m : Metrics) :
    (v.validateProject r.source p m).1 =
      if v.maxShifts < (r.view (.project p)).shifts.size then .error .limitExceeded
      else v.check (r.view (.project p)).roster (r.view (.project p)).shifts :=
  outcome_pass rfl .project _ m

theorem validate_source_eq_ok_iff {m : Metrics} {report : Report} :
    (v.validate r.source m).1 = .ok report ↔ (r.view .all).shifts.size ≤ v.maxShifts ∧
      (r.view .all).shifts.Checkable r.roster v.rules v.policy ∧
      report = (r.view .all).shifts.reportOf r.roster v.rules v.policy := by
  have houtcome : (v.validate r.source m).1 =
      if v.maxShifts < (r.view .all).shifts.size then .error .limitExceeded
      else v.check r.roster (r.view .all).shifts := outcome_validate rfl m
  rw [houtcome]
  by_cases hlimit : v.maxShifts < (r.view .all).shifts.size
  · simp [hlimit]
  · rw [if_neg hlimit, check_eq_ok_iff, Snapshot.validate_eq_ok_iff]
    simp [Nat.not_lt.mp hlimit]

/-- A project that is checked in a pass over the week is checked in a pass of its own, which reports
what the whole report says of it. -/
theorem validateProject_eq_ok (hkeyed : r.shifts.Keyed) {m m' : Metrics} {report : Report}
    (h : (v.validate r.source m).1 = .ok report) (p : ProjectId) :
    (v.validateProject r.source p m').1 = .ok (report.ofProject r.roster p) := by
  obtain ⟨hlimit, hcheck, rfl⟩ := validate_source_eq_ok_iff.mp h
  have hdistinct : (r.view .all).shifts.Distinct := hkeyed.distinct
  have hsize : ((r.view .all).shifts.ofProject r.roster p).size ≤ (r.view .all).shifts.size :=
    Snapshot.size_filter_le _ _
  rw [outcome_validateProject, Rota.view_project]
  dsimp only
  rw [if_neg (by omega), check_eq_ok_iff,
    Snapshot.validate_eq_ok (Snapshot.checkable_ofProject hcheck),
    Snapshot.reportOf_ofProject hdistinct]

theorem succeeds_validate (hrules : v.rules.Accepted) (hsize : r.shiftCount < capacity 32)
    (hlimit : r.shiftCount ≤ v.maxShifts) (m : Metrics) :
    Succeeds (v.validate r.source m).1 := by
  have hcount : (r.view .all).shifts.size = r.shiftCount := r.size_view_all
  refine ⟨_, validate_source_eq_ok_iff.mpr ⟨by omega, ?_, rfl⟩⟩
  exact Snapshot.checkable_of_accepted hrules v.policy (by omega)

/-- Passes over single projects report, in order, what a pass over the week says of each; merged,
with the rejections of the unregistered, they give its report; and none of them depends on what
other projects have. -/
theorem validateProject_parts (v : Validator) (edits : List Edit) (m m' : Metrics) :
    let r := Rota.ofHistory edits
    let whole := (v.validate r.source m).1
    let alone := fun (r : Rota) (p : ProjectId) => (v.validateProject r.source p m').1
    (v.rules.Accepted → r.shiftCount < capacity 32 → r.shiftCount ≤ v.maxShifts →
        Succeeds whole) ∧
      (∀ report, whole = .ok report →
        (∀ p, alone r p = .ok (report.ofProject r.roster p)) ∧
        ∀ projects : List ProjectId, projects.Nodup →
          (∀ p, p ∈ projects ↔ r.roster.HasProject p) →
            ∃ parts, projects.mapM (alone r) = .ok parts ∧
              (Report.merge parts).addRejections (report.unregistered r.roster) = report) ∧
      ∀ p edits', r.AgreeOn (.ofHistory edits') p →
        alone r p = alone (.ofHistory edits') p := by
  intro r whole alone
  have hkeyed : r.shifts.Keyed := Rota.keyed_ofHistory edits
  refine ⟨fun hrules hsize hlimit => succeeds_validate hrules hsize hlimit m, ?_, ?_⟩
  · intro report hreport
    have halone : ∀ p, alone r p = .ok (report.ofProject r.roster p) :=
      validateProject_eq_ok hkeyed hreport
    refine ⟨halone, ?_⟩
    intro projects hnodup hprojects
    refine ⟨_, mapM_eq_ok fun p _ => halone p, ?_⟩
    obtain ⟨-, -, rfl⟩ := validate_source_eq_ok_iff.mp hreport
    exact Snapshot.merge_ofProject hkeyed.distinct hnodup fun p => (hprojects p).mpr
  · intro p edits' hagree
    have hview := hagree.view_eq hkeyed (Rota.keyed_ofHistory edits')
    dsimp only [alone]
    rw [outcome_validateProject, outcome_validateProject, hview]

/-- Two projects, one with a double booking and one with a child alone, and a booking of nobody.
The second project is then closed. -/
theorem validateProject_parts_closed_project :
    let v : Validator := ⟨⟨3, 4, 8⟩, .pooled, 4⟩
    let edits : List Edit := [.memberRegistered (.ofNat 7) ⟨.ofNat 3, .staff⟩,
      .memberRegistered (.ofNat 8) ⟨.ofNat 4, .child .underTwo⟩,
      .shiftAdded ⟨.ofNat 1, .ofNat 7, 4, 480, 720⟩, .shiftAdded ⟨.ofNat 2, .ofNat 7, 4, 700, 800⟩,
      .shiftAdded ⟨.ofNat 3, .ofNat 8, 4, 500, 600⟩, .shiftAdded ⟨.ofNat 4, .ofNat 9, 4, 0, 60⟩]
    let r := Rota.ofHistory edits
    let closed := Rota.ofHistory (edits ++ [.memberRemoved (.ofNat 8), .shiftRemoved (.ofNat 3)])
    (∃ report, (v.validate r.source .empty).1 = .ok report ∧
      (v.validateProject r.source (.ofNat 4) .empty).1 =
        .ok (report.ofProject r.roster (.ofNat 4)) ∧
      ∃ parts, [.ofNat 3, .ofNat 4].mapM (fun p => (v.validateProject r.source p .empty).1) =
          .ok parts ∧
        (Report.merge parts).addRejections (report.unregistered r.roster) = report) ∧
      (v.validateProject r.source (.ofNat 3) .empty).1 =
        (v.validateProject closed.source (.ofNat 3) .empty).1 := by
  intro v edits r closed
  have hparts := validateProject_parts v edits .empty .empty
  have hrules : v.rules.Accepted := by
    intro b
    cases b <;> decide
  obtain ⟨report, hreport⟩ := hparts.1 hrules (by decide) (by decide)
  obtain ⟨halone, hmerge⟩ := hparts.2.1 report hreport
  have hprojects : ∀ p, p ∈ [.ofNat 3, .ofNat 4] ↔ r.roster.HasProject p := by
    intro p
    have hvalues : r.roster.values.map Enrolment.project = [.ofNat 3, .ofNat 4] := by decide
    rw [Roster.hasProject_iff, hvalues]
  have hroster : closed.roster = r.roster.erase (.ofNat 8) := by decide
  have hshifts : closed.shifts = r.shifts.erase (.ofNat 3) := by decide
  have hagree : r.AgreeOn closed (.ofNat 3) := by
    constructor
    · intro m e he
      rw [hroster, Table.get?_erase]
      split
      · next hm =>
          have hchild : r.roster.get? (.ofNat 8) = some ⟨.ofNat 4, .child .underTwo⟩ := by decide
          rw [hm, hchild]
          simp only [Option.some.injEq, reduceCtorEq, iff_false]
          rintro rfl
          revert he
          decide
      · rfl
    · intro b hb
      rw [hshifts, Table.get?_erase]
      split
      · next hid =>
          have hbooking : r.shifts.get? (.ofNat 3) = some ⟨.ofNat 3, .ofNat 8, 4, 500, 600⟩ := by
            decide
          rw [hid, hbooking]
          simp only [Option.some.injEq, reduceCtorEq, iff_false]
          rintro rfl
          revert hb
          decide
      · rfl
  exact ⟨⟨report, hreport, halone (.ofNat 4), hmerge _ (by decide) hprojects⟩,
    hparts.2.2 (.ofNat 3) _ hagree⟩

end Validator

end NurseryRota
