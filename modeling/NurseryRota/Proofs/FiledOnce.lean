import NurseryRota.Proofs.Faultless

/-!
# Every booking is filed once

A booking comes to one entry: a rejection when its times describe no interval or nobody on the
roster is its member, and otherwise a shift or an attendance in its member's project.  An intake is
these entries put in their places: sorting by project is stable, so each list has its entries in the
order of the bookings, and no entry is lost or doubled.  A rejected booking has no other effect, so
a report without it has the same findings.
-/

namespace NurseryRota

/-- What a booking comes to. -/
inductive Entry
  | rejected (e : Rejection)
  | staff (project : ProjectId) (s : Shift)
  | child (project : ProjectId) (a : Attendance)

namespace Entry

def rejection? : Entry → Option Rejection
  | rejected e => some e
  | staff _ _ => none
  | child _ _ => none

def staffOf? (p : ProjectId) : Entry → Option Shift
  | rejected _ => none
  | staff q s => if q = p then some s else none
  | child _ _ => none

def childOf? (p : ProjectId) : Entry → Option Attendance
  | rejected _ => none
  | staff _ _ => none
  | child q a => if q = p then some a else none

def ofFiled (f : Filed) : Entry :=
  match f.enrolment.role with
  | .staff => staff f.enrolment.project f.shift
  | .child b => child f.enrolment.project ⟨f.shift, b⟩

theorem staffOf?_ofFiled (p : ProjectId) (f : Filed) :
    (ofFiled f).staffOf? p = if f.enrolment.project = p then f.staff? else none := by
  cases hrole : f.enrolment.role <;> simp [ofFiled, staffOf?, Filed.staff?, hrole]

theorem childOf?_ofFiled (p : ProjectId) (f : Filed) :
    (ofFiled f).childOf? p = if f.enrolment.project = p then f.child? else none := by
  cases hrole : f.enrolment.role <;> simp [ofFiled, childOf?, Filed.child?, hrole]

theorem rejection?_ofFiled (f : Filed) : (ofFiled f).rejection? = none := by
  cases hrole : f.enrolment.role <;> simp [ofFiled, rejection?, hrole]

end Entry

namespace Booking

/-- The entry that a booking comes to.  What is wrong with its times counts before its member. -/
inductive Yields (roster : Roster) (b : Booking) : Entry → Prop
  | malformed {cause : IntervalError} (times : b.normalize = .error cause) :
      Yields roster b (.rejected ⟨b.id, b.member, .invalidInterval cause⟩)
  | unknown {i : Interval} (times : b.normalize = .ok i) (member : roster.get? b.member = none) :
      Yields roster b (.rejected ⟨b.id, b.member, .unknownMember⟩)
  | staff {i : Interval} {p : ProjectId} (times : b.normalize = .ok i)
      (member : roster.get? b.member = some ⟨p, .staff⟩) :
      Yields roster b (.staff p ⟨b.id, b.member, i⟩)
  | child {i : Interval} {p : ProjectId} {band : Band} (times : b.normalize = .ok i)
      (member : roster.get? b.member = some ⟨p, .child band⟩) :
      Yields roster b (.child p ⟨⟨b.id, b.member, i⟩, band⟩)

def entry (roster : Roster) (b : Booking) : Entry :=
  match b.file roster with
  | .error e => .rejected e
  | .ok f => .ofFiled f

variable {roster : Roster} {b : Booking}

theorem entry_of_error {e : Rejection} (h : b.file roster = .error e) :
    b.entry roster = .rejected e := by
  unfold entry
  rw [h]

theorem entry_of_ok {f : Filed} (h : b.file roster = .ok f) : b.entry roster = .ofFiled f := by
  unfold entry
  rw [h]

theorem yields_iff {e : Entry} : b.Yields roster e ↔ e = b.entry roster := by
  constructor
  · intro h
    unfold entry file toShift
    cases h with
    | malformed times => rw [times]; rfl
    | unknown times member => rw [times, member]; rfl
    | staff times member => rw [times, member]; rfl
    | child times member => rw [times, member]; rfl
  · rintro rfl
    unfold entry file toShift
    cases times : b.normalize with
    | error cause => exact .malformed times
    | ok i =>
        cases member : roster.get? b.member with
        | none => exact .unknown times member
        | some m =>
            obtain ⟨p, role⟩ := m
            cases role with
            | staff => exact .staff times member
            | child band => exact .child times member

theorem exists_file_error_iff :
    (∃ e, b.file roster = .error e) ↔ ∃ e, b.Yields roster (.rejected e) := by
  simp only [yields_iff]
  constructor
  · rintro ⟨e, hfile⟩
    exact ⟨e, (entry_of_error hfile).symm⟩
  · rintro ⟨e, hentry⟩
    cases hfile : b.file roster with
    | error cause => exact ⟨cause, rfl⟩
    | ok f =>
        rw [entry_of_ok hfile] at hentry
        have hnone := Entry.rejection?_ofFiled f
        rw [← hentry] at hnone
        cases hnone

end Booking

namespace Intake

/-- All that an intake holds. -/
def entries (i : Intake) : List Entry :=
  i.rejected.map .rejected ++
    i.teams.flatMap fun t => t.2.staff.map (.staff t.1) ++ t.2.children.map (.child t.1)

/-- An intake holds the entries, each in its place and as often as it is there, and each list has
them in the order they were in. -/
structure Files (i : Intake) (es : List Entry) : Prop where
  once : i.entries.Perm es
  rejected : i.rejected = es.filterMap Entry.rejection?
  staff : ∀ t ∈ i.teams, t.2.staff = es.filterMap (Entry.staffOf? t.1)
  children : ∀ t ∈ i.teams, t.2.children = es.filterMap (Entry.childOf? t.1)
  nonempty : ∀ t ∈ i.teams, ¬ (t.2.staff = [] ∧ t.2.children = [])
  ascending : i.teams.Pairwise fun t u => t.1.rank < u.1.rank

end Intake

namespace Team

theorem entries_ofFiled_perm {p : ProjectId} {fs : List Filed}
    (hproject : ∀ f ∈ fs, f.enrolment.project = p) :
    ((ofFiled fs).staff.map (Entry.staff p) ++ (ofFiled fs).children.map (Entry.child p)).Perm
      (fs.map Entry.ofFiled) := by
  induction fs with
  | nil => exact .nil
  | cons f fs ih =>
      have hrest := ih fun g hg => hproject g (List.mem_cons_of_mem f hg)
      have hf := hproject f (by simp)
      cases hrole : f.enrolment.role with
      | staff => simpa [ofFiled, Filed.staff?, Filed.child?, Entry.ofFiled, hrole, hf] using hrest
      | child b =>
          simp only [ofFiled, List.filterMap_cons, Filed.staff?, Filed.child?, hrole, List.map_cons,
            Entry.ofFiled, hf]
          exact List.perm_middle.trans (hrest.cons _)

theorem ofFiled_ne_nobody {f : Filed} {fs : List Filed} (hf : f ∈ fs) :
    ¬ ((ofFiled fs).staff = [] ∧ (ofFiled fs).children = []) := by
  simp only [ofFiled, List.filterMap_eq_nil_iff, not_and]
  intro hstaff hchildren
  have hnone := hstaff f hf
  have hnone' := hchildren f hf
  cases hrole : f.enrolment.role <;> simp [Filed.staff?, Filed.child?, hrole] at hnone hnone'

end Team

namespace Snapshot

variable (s : Snapshot) (roster : Roster)

def entries : List Entry := s.bookings.map (Booking.entry roster)

variable {s roster}

theorem forall₂_yields_iff {es : List Entry} :
    s.bookings.Forall₂ (Booking.Yields roster) es ↔ es = s.entries roster := by
  have hyields : Booking.Yields roster = fun b e => b.entry roster = e := by
    funext b e
    rw [eq_iff_iff, Booking.yields_iff, eq_comm]
  unfold entries
  rw [hyields, ← List.forall₂_map_left_iff, List.forall₂_eq_eq_eq, eq_comm]

theorem refused_eq : s.refused roster = (s.entries roster).filterMap Entry.rejection? := by
  unfold refused entries
  rw [List.filterMap_map, List.filterMap_map]
  apply List.filterMap_congr
  intro b _
  cases hfile : b.file roster with
  | error e => simp [hfile, Booking.entry_of_error hfile, Entry.rejection?]
  | ok f => simp [hfile, Booking.entry_of_ok hfile, Entry.rejection?_ofFiled]

/-- What is read off the filed bookings may be read off the entries. -/
theorem filterMap_filed {α : Type*} {read : Filed → Option α} {read' : Entry → Option α}
    (hfiled : ∀ f, read' (.ofFiled f) = read f) (hrejected : ∀ e, read' (.rejected e) = none) :
    (s.filed roster).filterMap read = (s.entries roster).filterMap read' := by
  unfold filed entries
  rw [List.filterMap_map, List.filterMap_map, List.filterMap_filterMap]
  apply List.filterMap_congr
  intro b _
  cases hfile : b.file roster with
  | error e => simp [hfile, Booking.entry_of_error hfile, hrejected]
  | ok f => simp [hfile, Booking.entry_of_ok hfile, hfiled]

theorem entries_perm : ((s.refused roster).map Entry.rejected ++
    (s.filed roster).map Entry.ofFiled).Perm (s.entries roster) := by
  unfold refused filed entries
  induction s.bookings with
  | nil => exact .nil
  | cons b bs ih =>
      cases hfile : b.file roster with
      | error e => simpa [hfile, Booking.entry_of_error hfile] using ih
      | ok f =>
          simp only [List.map_cons, List.filterMap_cons, hfile, Booking.entry_of_ok hfile]
          exact List.perm_middle.trans (ih.cons _)

/-- Sorting by project is stable, so a project's bookings keep their order. -/
theorem group_eq {g : ProjectId × List Filed} (hg : g ∈ s.groups roster) :
    g.2 = (s.filed roster).filter fun f => f.enrolment.project = g.1 := by
  have hkey : ∀ f : Filed, decide (f.enrolment.project = g.1) =
      decide (f.key = ⟨[g.1.rank]⟩) := by
    intro f
    rw [decide_eq_decide]
    exact (projectRank_injective.eq_iff (a := f.enrolment.project) (b := g.1)).symm
  refine (mem_groups_iff.mp hg).2.trans ?_
  simp only [hkey]
  exact filter_key_sortBy Filed.key (s.filed roster) ⟨[g.1.rank]⟩

theorem entries_teams_perm : ((Intake.ofSnapshot s roster).teams.flatMap fun t =>
    t.2.staff.map (Entry.staff t.1) ++ t.2.children.map (Entry.child t.1)).Perm
      ((s.filed roster).map Entry.ofFiled) := by
  rw [teams_ofSnapshot, List.flatMap_map]
  have hgroups : ((s.groups roster).flatMap fun g =>
      (Team.ofFiled g.2).staff.map (Entry.staff g.1) ++
        (Team.ofFiled g.2).children.map (Entry.child g.1)).Perm
      ((s.groups roster).flatMap fun g => g.2.map Entry.ofFiled) := by
    apply List.Perm.flatMap_left
    intro g hg
    exact Team.entries_ofFiled_perm fun f hf => ((mem_of_mem_groups hg).mp hf).2
  have hsorted : ((s.groups roster).flatMap fun g => g.2.map Entry.ofFiled) =
      (sortBy Filed.key (s.filed roster)).map Entry.ofFiled := by
    unfold groups
    rw [← List.map_flatMap, flatMap_stretches]
  rw [hsorted] at hgroups
  exact hgroups.trans ((sortBy_perm Filed.key _).map _)

theorem files_entries : (Intake.ofSnapshot s roster).Files (s.entries roster) where
  once := (entries_teams_perm.append_left _).trans entries_perm
  rejected := refused_eq
  staff := by
    intro t ht
    obtain ⟨g, hg, rfl⟩ := List.mem_map.mp ht
    change g.2.filterMap Filed.staff? = _
    rw [group_eq hg, List.filterMap_filter]
    refine filterMap_filed ?_ fun _ => rfl
    simpa using Entry.staffOf?_ofFiled g.1
  children := by
    intro t ht
    obtain ⟨g, hg, rfl⟩ := List.mem_map.mp ht
    change g.2.filterMap Filed.child? = _
    rw [group_eq hg, List.filterMap_filter]
    refine filterMap_filed ?_ fun _ => rfl
    simpa using Entry.childOf?_ofFiled g.1
  nonempty := by
    intro t ht
    obtain ⟨g, hg, rfl⟩ := List.mem_map.mp ht
    obtain ⟨f, hf⟩ := List.exists_mem_of_ne_nil _ (mem_groups_iff.mp hg).1
    exact Team.ofFiled_ne_nobody hf
  ascending := by
    rw [teams_ofSnapshot, List.pairwise_map]
    refine (pairwise_stretches projectRank_injective (labelsAscend_project _)).imp ?_
    rintro g k ⟨hle, hne⟩
    have hrank : g.1.rank ≠ k.1.rank := fun hrank => hne (Uuid.rank_inj.mp hrank)
    exact lt_of_le_of_ne (SortKey.singleton_le_singleton.mp hle) hrank

end Snapshot

/-! ## Rejections in a report -/

theorem Rejection.key_le_iff {a b : Rejection} : a.key ≤ b.key ↔
    a.shift.rank < b.shift.rank ∨ a.shift = b.shift ∧ a.member.rank ≤ b.member.rank := by
  unfold key
  rw [SortKey.cons_le_cons, SortKey.singleton_le_singleton, Uuid.rank_inj]

namespace Snapshot

variable {s : Snapshot} {roster : Roster} {rules : Rules} {policy : Policy}

/-- A report has the findings of the filed bookings and the rejections of the others. -/
theorem validate_of_filed_eq {s' : Snapshot} (hfiled : s'.filed roster = s.filed roster) :
    s'.validate roster rules policy = (s.validate roster rules policy).map fun r =>
      { r with rejected := sortBy Rejection.key (s'.refused roster) } := by
  have hgroups : s'.groups roster = s.groups roster := by
    unfold groups
    rw [hfiled]
  cases hreport : s.validate roster rules policy with
  | ok r =>
      obtain ⟨hcheck, rfl⟩ := validate_eq_ok_iff.mp hreport
      have hcheck' : s'.Checkable roster rules policy := by
        unfold Checkable
        rwa [hgroups]
      have hfindings : s'.findings roster rules policy = s.findings roster rules policy := by
        unfold findings
        rw [hgroups]
      rw [validate_eq_ok hcheck']
      unfold reportOf
      rw [hfindings]
      rfl
  | error fault =>
      have hteams : (Intake.ofSnapshot s' roster).teams = (Intake.ofSnapshot s roster).teams := by
        rw [teams_ofSnapshot, teams_ofSnapshot, hgroups]
      unfold validate at hreport ⊢
      dsimp only at hreport ⊢
      rw [hteams]
      cases hparts : (Intake.ofSnapshot s roster).teams.mapM
          fun t => t.2.assemble t.1 rules policy with
      | error cause =>
          rw [hparts] at hreport
          cases hreport
          rfl
      | ok parts =>
          rw [hparts] at hreport
          cases hreport

/-- Without its rejected bookings a snapshot has the same findings, or meets the same fault. -/
theorem validate_filter_accepted {keep : Booking → Bool}
    (hkeep : ∀ b ∈ s.bookings, keep b = false ↔ ∃ e, b.Yields roster (.rejected e)) :
    (s.filter keep).validate roster rules policy = (s.validate roster rules policy).map
      fun r => { r with rejected := [] } := by
  have hkept : ∀ b ∈ s.bookings, ∀ f, b.file roster = .ok f → true = keep b := by
    intro b hb f hfile
    by_contra hdropped
    have hfalse : keep b = false := by simpa using Ne.symm hdropped
    obtain ⟨e, he⟩ := Booking.exists_file_error_iff.mpr ((hkeep b hb).mp hfalse)
    rw [hfile] at he
    cases he
  have hdropped : ∀ b ∈ s.bookings, ∀ e, b.file roster = .error e → false = keep b :=
    fun b hb e hfile => ((hkeep b hb).mpr (Booking.exists_file_error_iff.mp ⟨e, hfile⟩)).symm
  have hfiled : (s.filter keep).filed roster = s.filed roster := by
    rw [filed_filter (fun _ _ _ => rfl) hkept]
    exact List.filter_true _
  have hrefused : (s.filter keep).refused roster = [] := by
    rw [refused_filter (fun _ _ _ => rfl) hdropped]
    exact List.filter_false _
  rw [validate_of_filed_eq hfiled, hrefused, sortBy_nil]

/-- Every booking comes to one entry, and an intake holds the entries of the bookings, each once.
The rejections of a report are those of the intake, by shift and member, and without the bookings
that are rejected the report is the same but for them. -/
theorem bookings_filed_once (s : Snapshot) (roster : Roster) :
    (∀ b : Booking, ∃! e, b.Yields roster e) ∧
      ∃ es, s.bookings.Forall₂ (Booking.Yields roster) es ∧
        (Intake.ofSnapshot s roster).Files es ∧
        ∀ rules policy,
          (rules.Accepted → s.size < capacity 32 → Succeeds (s.validate roster rules policy)) ∧
          (∀ r, s.validate roster rules policy = .ok r →
            r.rejected.Perm (es.filterMap Entry.rejection?) ∧
              r.rejected.Pairwise fun a b => a.shift.rank < b.shift.rank ∨
                a.shift = b.shift ∧ a.member.rank ≤ b.member.rank) ∧
          ∀ keep : Booking → Bool,
            (∀ b ∈ s.bookings, keep b = false ↔ ∃ e, b.Yields roster (.rejected e)) →
              (s.filter keep).validate roster rules policy =
                (s.validate roster rules policy).map fun r => { r with rejected := [] } := by
  constructor
  · intro b
    exact ⟨b.entry roster, Booking.yields_iff.mpr rfl, fun e he => Booking.yields_iff.mp he⟩
  · refine ⟨s.entries roster, forall₂_yields_iff.mpr rfl, files_entries, ?_⟩
    intro rules policy
    refine ⟨?_, ?_, fun keep hkeep => validate_filter_accepted hkeep⟩
    · intro hrules hsize
      exact ⟨_, validate_eq_ok (checkable_of_accepted hrules policy hsize)⟩
    · intro r hr
      obtain ⟨-, rfl⟩ := validate_eq_ok_iff.mp hr
      rw [← refused_eq]
      refine ⟨sortBy_perm Rejection.key _, ?_⟩
      exact (pairwise_sortBy Rejection.key _).imp Rejection.key_le_iff.mp

/-- One id is booked for staff and for a child, and one twice for a member who is not on the roster,
the second time on no day of the week. -/
theorem bookings_filed_once_repeated :
    let roster : Roster := .ofList [(.ofNat 7, ⟨.ofNat 3, .staff⟩),
      (.ofNat 8, ⟨.ofNat 3, .child .underTwo⟩)]
    let s : Snapshot := ⟨[⟨.ofNat 1, .ofNat 7, 1, 480, 720⟩, ⟨.ofNat 1, .ofNat 8, 1, 470, 500⟩,
      ⟨.ofNat 2, .ofNat 9, 1, 480, 600⟩, ⟨.ofNat 2, .ofNat 9, 8, 480, 600⟩], by decide⟩
    ∃ r, s.validate roster ⟨3, 4, 8⟩ .pooled = .ok r ∧
      r.rejected.Perm [⟨.ofNat 2, .ofNat 9, .unknownMember⟩,
        ⟨.ofNat 2, .ofNat 9, .invalidInterval (.dayOutOfRange 8)⟩] ∧
      (s.filter fun b => b.member ≠ .ofNat 9).validate roster ⟨3, 4, 8⟩ .pooled =
        .ok { r with rejected := [] } := by
  intro roster s
  have hrules : Rules.Accepted ⟨3, 4, 8⟩ := Rules.accepted_standard
  obtain ⟨-, es, hyields, -, hreport⟩ := bookings_filed_once s roster
  obtain ⟨hsucceeds, hrejected, hinert⟩ := hreport ⟨3, 4, 8⟩ .pooled
  obtain ⟨r, hr⟩ := hsucceeds hrules (by decide)
  refine ⟨r, hr, ?_, ?_⟩
  · have hrefused : (s.entries roster).filterMap Entry.rejection? =
        [⟨.ofNat 2, .ofNat 9, .unknownMember⟩,
          ⟨.ofNat 2, .ofNat 9, .invalidInterval (.dayOutOfRange 8)⟩] := by
      decide
    rw [← hrefused, ← forall₂_yields_iff.mp hyields]
    exact (hrejected r hr).1
  · rw [hinert, hr]
    · rfl
    · have hkept : ∀ b ∈ s.bookings, decide (b.member ≠ .ofNat 9) = (b.file roster).isOk := by
        decide
      intro b hb
      rw [← Booking.exists_file_error_iff, hkept b hb]
      cases b.file roster <;> simp [Except.isOk, Except.toBool]

end Snapshot

end NurseryRota
