import NurseryRota.Proofs.ConflictSweep
import NurseryRota.Proofs.TeamShortages

/-!
# What the findings of a report mean

A booking counts when its times describe an interval and its member is on the roster.  The
findings of a report are the overlaps of two bookings of one member of staff, and the maximal
windows of a project's day in which fewer staff are there than the children need, where a member
is there while any of their bookings lasts.  Each finding is listed once.
-/

namespace NurseryRota

theorem map_filterMap_sublist {α β γ : Type*} {f : α → Option β} {h : β → γ} {k : α → γ}
    (hsame : ∀ a b, f a = some b → h b = k a) (xs : List α) :
    ((xs.filterMap f).map h).Sublist (xs.map k) := by
  induction xs with
  | nil => exact List.Sublist.refl _
  | cons x xs ih =>
      cases hx : f x with
      | none => simpa [hx] using ih.cons (k x)
      | some b => simpa [hx, hsame x b hx] using ih.cons_cons (k x)

namespace Booking

/-- The booking is of a member with the enrolment, and its interval is on the day and covers the
minute. -/
def attends (roster : Roster) (e : Enrolment) (d : Weekday) (minute : Int) (b : Booking) : Bool :=
  match b.normalize with
  | .ok i => roster.get? b.member = some e && i.day = d && i.covers minute
  | .error _ => false

theorem attends_iff {roster : Roster} {e : Enrolment} {d : Weekday} {minute : Int} {b : Booking} :
    b.attends roster e d minute ↔ ∃ i, b.normalize = .ok i ∧ roster.get? b.member = some e ∧
      i.day = d ∧ i.covers minute := by
  unfold attends
  cases b.normalize with
  | error cause => simp
  | ok i => simp [and_assoc]

end Booking

namespace Snapshot

variable (s : Snapshot) (roster : Roster)

/-- The members of a project that are there in a role at a minute of a day. -/
def present (p : ProjectId) (d : Weekday) (r : Role) (minute : Int) : Finset MemberId :=
  ((s.bookings.filter (Booking.attends roster ⟨p, r⟩ d minute)).map Booking.member).toFinset

def headcount (p : ProjectId) (d : Weekday) (minute : Int) : Headcount :=
  .ofPresent fun r => s.present roster p d r minute

/-- Two bookings of a member of staff overlap on a day.  The first of them starts first or, if they
start together, has the lower id. -/
def DoubleBooked (c : Conflict) : Prop :=
  ∃ a ∈ s.bookings, ∃ b ∈ s.bookings, ∃ i j p,
    a.normalize = .ok i ∧ b.normalize = .ok j ∧ a.member = b.member ∧
      roster.get? a.member = some ⟨p, .staff⟩ ∧ i.day = j.day ∧
      (∃ minute, i.covers minute ∧ j.covers minute) ∧
      (i.start < j.start ∨ i.start = j.start ∧ a.id.rank < b.id.rank) ∧
      c = ⟨a.member, i.day, a.id, b.id, ⟨i.day, max i.start j.start, min i.stop j.stop⟩⟩

/-- The shortage is a maximal window of a project's day in which fewer staff are there than are
needed, with the extremes of what is needed, there and missing. -/
def Understaffed (rules : Rules) (policy : Policy) (v : Shortage) : Prop :=
  Shortage.IsRun v.project v.day (fun minute => (s.headcount roster v.project v.day minute).staff)
    (fun minute => rules.need policy (s.headcount roster v.project v.day minute)) v

variable {s roster}

theorem mem_present {p : ProjectId} {d : Weekday} {r : Role} {minute : Int} {m : MemberId} :
    m ∈ s.present roster p d r minute ↔ ∃ f ∈ s.filed roster, f.shift.member = m ∧
      f.enrolment = ⟨p, r⟩ ∧ f.shift.interval.day = d ∧ f.shift.interval.covers minute := by
  simp only [present, List.mem_toFinset, List.mem_map, List.mem_filter, Booking.attends_iff,
    mem_filed, Booking.file_eq_ok_iff]
  constructor
  · rintro ⟨b, ⟨hb, i, hnormal, hmember, hday, hcovers⟩, rfl⟩
    exact ⟨_, ⟨b, hb, i, _, hnormal, hmember, rfl⟩, rfl, rfl, hday, hcovers⟩
  · rintro ⟨f, ⟨b, hb, i, e, hnormal, hmember, rfl⟩, rfl, rfl, hday, hcovers⟩
    exact ⟨b, ⟨hb, i, hnormal, hmember, hday, hcovers⟩, rfl⟩

/-! ## Teams -/

theorem exists_group {f : Filed} (hf : f ∈ s.filed roster) :
    ∃ fs, (f.enrolment.project, fs) ∈ s.groups roster ∧ f ∈ fs := by
  have hmem : f ∈ (sortBy Filed.key (s.filed roster)).filter
      fun k => k.enrolment.project = f.enrolment.project := by
    simp [mem_sortBy, hf]
  exact ⟨_, mem_groups_iff.mpr ⟨List.ne_nil_of_mem hmem, rfl⟩, hmem⟩

end Snapshot

theorem Team.mem_staff_ofFiled {fs : List Filed} {shift : Shift} :
    shift ∈ (ofFiled fs).staff ↔ ∃ f ∈ fs, f.enrolment.role = .staff ∧ f.shift = shift := by
  simp only [ofFiled, List.mem_filterMap]
  refine exists_congr fun f => and_congr_right fun _ => ?_
  cases hrole : f.enrolment.role <;> simp [Filed.staff?, hrole]

theorem Team.mem_findings {t : Team} {project : ProjectId} {rules : Rules} {policy : Policy}
    {f : Finding} : f ∈ t.findings project rules policy ↔
      (∃ c ∈ conflicts t.staff, f = .conflict c) ∨
        ∃ d, ∃ v ∈ t.shortagesOn project rules policy d, f = .shortage v := by
  simp only [findings, List.mem_append, List.mem_map, List.mem_flatMap]
  refine or_congr ?_ ?_
  · simp only [eq_comm]
  · constructor
    · rintro ⟨v, ⟨d, -, hv⟩, rfl⟩
      exact ⟨d, v, hv, rfl⟩
    · rintro ⟨d, v, hv, rfl⟩
      exact ⟨v, ⟨d, Weekday.mem_all d, hv⟩, rfl⟩

namespace Snapshot

variable {s : Snapshot} {roster : Roster} {g : ProjectId × List Filed}

theorem headcount_ofFiled (hg : g ∈ s.groups roster) (d : Weekday) (minute : Int) :
    (Team.ofFiled g.2).headcount d minute = s.headcount roster g.1 d minute := by
  have hpresent : ∀ r, (Team.ofFiled g.2).present d r minute =
      s.present roster g.1 d r minute := by
    intro r
    ext m
    rw [Team.mem_present, mem_present]
    constructor
    · rintro ⟨stay, hstay, rfl, rfl, hday, hcovers⟩
      obtain ⟨f, hf, rfl⟩ := Team.mem_stays_ofFiled.mp hstay
      obtain ⟨hfiled, hproject⟩ := (mem_of_mem_groups hg).mp hf
      exact ⟨f, hfiled, rfl, by rw [← hproject], hday, hcovers⟩
    · rintro ⟨f, hf, rfl, henrolment, hday, hcovers⟩
      have hmem := (mem_of_mem_groups hg).mpr ⟨hf, by rw [henrolment]⟩
      exact ⟨_, Team.mem_stays_ofFiled.mpr ⟨f, hmem, rfl⟩, rfl, by rw [henrolment], hday, hcovers⟩
  unfold Team.headcount headcount
  simp only [hpresent]

theorem headcount_of_no_group {p : ProjectId} (hnone : ∀ g ∈ s.groups roster, g.1 ≠ p)
    (d : Weekday) (minute : Int) : s.headcount roster p d minute = .nobody := by
  apply Headcount.ofPresent_empty
  intro r
  rw [Finset.eq_empty_iff_forall_notMem]
  intro m hm
  obtain ⟨f, hf, -, henrolment, -⟩ := mem_present.mp hm
  obtain ⟨fs, hgroup, -⟩ := exists_group hf
  exact hnone _ hgroup (by rw [henrolment])

/-! ## Shortages -/

theorem mem_findings {rules : Rules} {policy : Policy} {f : Finding} :
    f ∈ s.findings roster rules policy ↔
      ∃ g ∈ s.groups roster, f ∈ (Team.ofFiled g.2).findings g.1 rules policy :=
  List.mem_flatMap

section Shortages

variable {rules : Rules} (hrules : rules.Accepted) (policy : Policy)
  (hsize : s.size < capacity 32)

include hrules hsize

theorem collects_shortagesOn (hg : g ∈ s.groups roster) (d : Weekday) :
    ∃ start, Shortage.Collects g.1 d (fun minute => (s.headcount roster g.1 d minute).staff)
        (fun minute => rules.need policy (s.headcount roster g.1 d minute)) start
        ((Team.ofFiled g.2).shortagesOn g.1 rules policy d) ∧
      ∀ m, m < start → ¬ (s.headcount roster g.1 d m).staff <
        rules.need policy (s.headcount roster g.1 d m) := by
  have hteam := Team.collects_shortagesOn g.1 hrules policy d (valid_stays_of_mem_groups hg)
    (Nat.lt_of_le_of_lt (length_stays_le_size hg) hsize)
  simpa only [headcount_ofFiled hg] using hteam

theorem mem_shortagesOn_iff (hg : g ∈ s.groups roster) {d : Weekday} {v : Shortage} :
    v ∈ (Team.ofFiled g.2).shortagesOn g.1 rules policy d ↔
      v.project = g.1 ∧ v.day = d ∧ s.Understaffed roster rules policy v := by
  obtain ⟨start, hcollects, hidle⟩ := collects_shortagesOn hrules policy hsize hg d
  rw [hcollects.mem_iff hidle]
  constructor
  · intro hrun
    have hproject := hrun.project_eq
    have hday := hrun.day_eq
    refine ⟨hproject, hday, ?_⟩
    unfold Understaffed
    rw [hproject, hday]
    exact hrun
  · rintro ⟨hproject, rfl, hrun⟩
    unfold Understaffed at hrun
    rw [hproject] at hrun
    exact hrun

theorem shortage_mem_findings_iff {v : Shortage} :
    .shortage v ∈ s.findings roster rules policy ↔ s.Understaffed roster rules policy v := by
  rw [mem_findings]
  constructor
  · rintro ⟨g, hg, hv⟩
    rcases Team.mem_findings.mp hv with ⟨c, -, hf⟩ | ⟨d, w, hw, hf⟩
    · cases hf
    · cases hf
      exact ((mem_shortagesOn_iff hrules policy hsize hg).mp hw).2.2
  · intro hrun
    have hshort := hrun.short v.window.start (Int.le_refl _) hrun.nonempty
    by_cases hgroup : ∃ g ∈ s.groups roster, g.1 = v.project
    · obtain ⟨g, hg, hproject⟩ := hgroup
      exact ⟨g, hg, Team.mem_findings.mpr (Or.inr ⟨v.day, v,
        (mem_shortagesOn_iff hrules policy hsize hg).mpr ⟨hproject.symm, rfl, hrun⟩, rfl⟩)⟩
    · have hnobody := headcount_of_no_group (fun g hg hp => hgroup ⟨g, hg, hp⟩) v.day v.window.start
      rw [hnobody, Rules.need_nobody hrules] at hshort
      exact absurd hshort (Nat.not_lt_zero _)

end Shortages

/-! ## Conflicts -/

section Conflicts

variable (hdistinct : s.Distinct)

include hdistinct

theorem nodup_ids_filed : ((s.filed roster).map fun f => f.shift.id).Nodup := by
  refine List.Nodup.sublist ?_ hdistinct
  unfold filed
  rw [List.filterMap_map]
  apply map_filterMap_sublist
  intro b f hf
  cases hfile : b.file roster with
  | error e => simp [hfile] at hf
  | ok k =>
      obtain ⟨i, m, -, -, hk⟩ := Booking.file_eq_ok_iff.mp hfile
      simp only [Function.comp_apply, hfile, Option.some.injEq] at hf
      rw [← hf, hk]

theorem nodup_ids_staff (hg : g ∈ s.groups roster) :
    ((Team.ofFiled g.2).staff.map Shift.id).Nodup := by
  have hgroup : (g.2.map fun f => f.shift.id).Nodup := by
    rw [(mem_groups_iff.mp hg).2]
    refine List.Nodup.sublist (List.filter_sublist.map _) ?_
    exact ((sortBy_perm Filed.key (s.filed roster)).map _).nodup_iff.mpr (nodup_ids_filed hdistinct)
  refine List.Nodup.sublist (map_filterMap_sublist ?_ g.2) hgroup
  intro f shift hf
  cases hrole : f.enrolment.role <;> simp [Filed.staff?, hrole] at hf
  rw [hf]

theorem exists_filed_of_conflict (hg : g ∈ s.groups roster) {c : Conflict}
    (hc : c ∈ conflicts (Team.ofFiled g.2).staff) :
    ∃ f ∈ s.filed roster, f.shift.id = c.first ∧ f.enrolment.project = g.1 := by
  obtain ⟨x, hx, y, -, -, -, -, hconflict⟩ :=
    (mem_conflicts_iff (nodup_ids_staff hdistinct hg)).mp hc
  obtain ⟨f, hf, -, rfl⟩ := Team.mem_staff_ofFiled.mp hx
  obtain ⟨hfiled, hproject⟩ := (mem_of_mem_groups hg).mp hf
  refine ⟨f, hfiled, ?_, hproject⟩
  rw [(Shift.conflictWith_eq_some_iff.mp hconflict).2]

theorem conflict_mem_findings_iff {rules : Rules} {policy : Policy} {c : Conflict} :
    .conflict c ∈ s.findings roster rules policy ↔ s.DoubleBooked roster c := by
  have hteams : .conflict c ∈ s.findings roster rules policy ↔
      ∃ g ∈ s.groups roster, c ∈ conflicts (Team.ofFiled g.2).staff := by
    simp [mem_findings, Team.mem_findings]
  rw [hteams]
  constructor
  · rintro ⟨g, hg, hc⟩
    obtain ⟨x, hx, y, hy, hid, hmember, hkey, hconflict⟩ :=
      (mem_conflicts_iff (nodup_ids_staff hdistinct hg)).mp hc
    obtain ⟨f, hf, hrole, rfl⟩ := Team.mem_staff_ofFiled.mp hx
    obtain ⟨k, hk, -, rfl⟩ := Team.mem_staff_ofFiled.mp hy
    have hfiled := ((mem_of_mem_groups hg).mp hf).1
    have hfiled' := ((mem_of_mem_groups hg).mp hk).1
    obtain ⟨a, ha, hfile⟩ := mem_filed.mp hfiled
    obtain ⟨b, hb, hfile'⟩ := mem_filed.mp hfiled'
    obtain ⟨hoverlaps, rfl⟩ := Shift.conflictWith_eq_some_iff.mp hconflict
    obtain ⟨hday, hcovers⟩ := (Interval.overlaps_iff (valid_of_mem_filed f hfiled)
      (valid_of_mem_filed k hfiled')).mp hoverlaps
    obtain ⟨i, ⟨p, role⟩, hi, henrolled, rfl⟩ := Booking.file_eq_ok_iff.mp hfile
    obtain ⟨j, e, hj, -, rfl⟩ := Booking.file_eq_ok_iff.mp hfile'
    obtain rfl : role = .staff := hrole
    refine ⟨a, ha, b, hb, i, j, p, hi, hj, hmember, henrolled, hday, hcovers, ?_, rfl⟩
    have hrank : a.id.rank ≠ b.id.rank := fun hrank => hid (Uuid.rank_inj.mp hrank)
    exact (Shift.startKey_le_iff.mp hkey).imp_right fun h => ⟨h.1, lt_of_le_of_ne h.2 hrank⟩
  · rintro ⟨a, ha, b, hb, i, j, p, hi, hj, hmember, henrolled, hday, hcovers, horder, rfl⟩
    have hfile := Booking.file_eq_ok_iff.mpr ⟨i, _, hi, henrolled, rfl⟩
    have hfile' := Booking.file_eq_ok_iff.mpr ⟨j, _, hj, hmember ▸ henrolled, rfl⟩
    have hfiled := mem_filed.mpr ⟨a, ha, hfile⟩
    have hfiled' := mem_filed.mpr ⟨b, hb, hfile'⟩
    obtain ⟨fs, hg, hf⟩ := exists_group hfiled
    have hk := (mem_of_mem_groups hg).mpr ⟨hfiled', rfl⟩
    have hid : a.id ≠ b.id := by
      intro hid
      obtain rfl : a = b := List.inj_on_of_nodup_map hdistinct ha hb hid
      obtain rfl : i = j := Except.ok.inj (hi.symm.trans hj)
      omega
    have hoverlaps := (Interval.overlaps_iff (valid_of_mem_filed _ hfiled)
      (valid_of_mem_filed _ hfiled')).mpr ⟨hday, hcovers⟩
    refine ⟨_, hg, (mem_conflicts_iff (nodup_ids_staff hdistinct hg)).mpr ?_⟩
    refine ⟨_, Team.mem_staff_ofFiled.mpr ⟨_, hf, rfl, rfl⟩,
      _, Team.mem_staff_ofFiled.mpr ⟨_, hk, rfl, rfl⟩, hid, hmember, ?_, ?_⟩
    · exact Shift.startKey_le_iff.mpr (horder.imp_right fun h => ⟨h.1, Int.le_of_lt h.2⟩)
    · exact Shift.conflictWith_eq_some_iff.mpr ⟨hoverlaps, rfl⟩

end Conflicts

end Snapshot

/-! ## Each finding once -/

namespace Finding

theorem ids_of_key_eq {c c' : Conflict} (h : (conflict c).key = (conflict c').key) :
    c.first = c'.first ∧ c.second = c'.second := by
  simp only [key, SortKey.mk.injEq, List.cons.injEq, and_true] at h
  exact ⟨Uuid.rank_inj.mp h.2.2.2.2.2.1, Uuid.rank_inj.mp h.2.2.2.2.2.2⟩

theorem window_of_key_eq {v v' : Shortage} (h : (shortage v).key = (shortage v').key) :
    v.window.day = v'.window.day ∧ v.window.start = v'.window.start ∧ v.project = v'.project := by
  simp only [key, window, SortKey.mk.injEq, List.cons.injEq, and_true] at h
  exact ⟨Weekday.rank_inj.mp h.1, h.2.1, Uuid.rank_inj.mp h.2.2.2.2⟩

theorem key_conflict_ne_shortage (c : Conflict) (v : Shortage) :
    (conflict c).key ≠ (shortage v).key := by
  simp [key]

end Finding

/-- No two findings of a team have one key. -/
theorem Team.keys_differ {t : Team} {project : ProjectId} {rules : Rules} {policy : Policy}
    (hids : (t.staff.map Shift.id).Nodup)
    (hascend : ∀ d, (t.shortagesOn project rules policy d).Pairwise
      fun v w => v.window.start < w.window.start) :
    (t.findings project rules policy).Pairwise fun f g => f.key ≠ g.key := by
  unfold findings
  rw [List.pairwise_append, List.pairwise_map, List.pairwise_map, List.pairwise_flatMap]
  refine ⟨?_, ⟨?_, ?_⟩, ?_⟩
  · refine (List.pairwise_map.mp (nodup_conflicts hids)).imp ?_
    intro c c' hne hkey
    obtain ⟨hfirst, hsecond⟩ := Finding.ids_of_key_eq hkey
    exact hne (Prod.ext hfirst hsecond)
  · intro d _
    refine (hascend d).imp ?_
    intro v w hlt hkey
    have := (Finding.window_of_key_eq hkey).2.1
    omega
  · refine Weekday.nodup_all.imp ?_
    intro d e hde v hv w hw hkey
    have hday := (Finding.window_of_key_eq hkey).1
    rw [day_of_mem_shortagesOn v hv, day_of_mem_shortagesOn w hw] at hday
    exact hde hday
  · intro f hf g hg
    obtain ⟨c, -, rfl⟩ := List.mem_map.mp hf
    obtain ⟨v, -, rfl⟩ := List.mem_map.mp hg
    exact Finding.key_conflict_ne_shortage c v

namespace Snapshot

variable {s : Snapshot} {roster : Roster} {rules : Rules} (hrules : rules.Accepted)
  (policy : Policy) (hsize : s.size < capacity 32) (hdistinct : s.Distinct)

include hrules hsize hdistinct

/-- Findings with one key are about one project. -/
theorem project_of_key_eq {g k : ProjectId × List Filed} (hg : g ∈ s.groups roster)
    (hk : k ∈ s.groups roster) {f f' : Finding}
    (hf : f ∈ (Team.ofFiled g.2).findings g.1 rules policy)
    (hf' : f' ∈ (Team.ofFiled k.2).findings k.1 rules policy) (hkey : f.key = f'.key) :
    g.1 = k.1 := by
  rcases Team.mem_findings.mp hf with ⟨c, hc, rfl⟩ | ⟨d, v, hv, rfl⟩ <;>
    rcases Team.mem_findings.mp hf' with ⟨c', hc', rfl⟩ | ⟨d', v', hv', rfl⟩
  · obtain ⟨x, hx, hid, hproject⟩ := exists_filed_of_conflict hdistinct hg hc
    obtain ⟨y, hy, hid', hproject'⟩ := exists_filed_of_conflict hdistinct hk hc'
    have hids := (Finding.ids_of_key_eq hkey).1
    have hsame : x = y := List.inj_on_of_nodup_map (nodup_ids_filed hdistinct) hx hy
      (hid.trans (hids.trans hid'.symm))
    rw [← hproject, ← hproject', hsame]
  · exact absurd hkey (Finding.key_conflict_ne_shortage c v')
  · exact absurd hkey.symm (Finding.key_conflict_ne_shortage c' v)
  · have hproject := ((mem_shortagesOn_iff hrules policy hsize hg).mp hv).1
    have hproject' := ((mem_shortagesOn_iff hrules policy hsize hk).mp hv').1
    rw [← hproject, ← hproject', (Finding.window_of_key_eq hkey).2.2]

theorem keys_differ :
    (s.findings roster rules policy).Pairwise fun f g => f.key ≠ g.key := by
  unfold findings
  rw [List.pairwise_flatMap]
  constructor
  · intro g hg
    apply Team.keys_differ (nodup_ids_staff hdistinct hg)
    intro d
    obtain ⟨start, hcollects, -⟩ := collects_shortagesOn hrules policy hsize hg d
    refine hcollects.ascend.imp_of_mem ?_
    intro v w hv _ hvw
    have := (hcollects.run v hv).nonempty
    omega
  · -- Only findings about one project can have one key, and a project has one team.
    have hgroups := pairwise_stretches projectRank_injective
      (labelsAscend_project (s.filed roster))
    refine hgroups.imp_of_mem ?_
    rintro g k hg hk ⟨-, hne⟩ f hf f' hf' hkey
    exact hne (project_of_key_eq hrules policy hsize hdistinct hg hk hf hf' hkey)

end Snapshot

/-! ## The whole report -/

namespace Snapshot

variable {s : Snapshot} {roster : Roster}

theorem get?_of_mem_filed {f : Filed} (hf : f ∈ s.filed roster) :
    roster.get? f.shift.member = some f.enrolment := by
  obtain ⟨b, -, hfile⟩ := mem_filed.mp hf
  obtain ⟨i, e, -, henrolled, rfl⟩ := Booking.file_eq_ok_iff.mp hfile
  exact henrolled

/-- No more children are there than there are bookings. -/
theorem total_children_le_size (p : ProjectId) (d : Weekday) (minute : Int) :
    Rules.total (s.headcount roster p d minute).children ≤ s.size := by
  by_cases hgroup : ∃ g ∈ s.groups roster, g.1 = p
  · obtain ⟨g, hg, rfl⟩ := hgroup
    have hchildren : Rules.total ((Team.ofFiled g.2).childrenAt d minute) ≤
        (Team.ofFiled g.2).children.length := Team.total_childrenAt_le
    have hstays := length_stays_le_size hg
    rw [Team.length_stays] at hstays
    rw [← headcount_ofFiled hg, Team.headcount_eq]
    dsimp only
    omega
  · rw [headcount_of_no_group fun g hg hp => hgroup ⟨g, hg, hp⟩]
    exact Nat.zero_le _

/-- Under accepted rules the report on fewer than `2 ^ 32` bookings with different ids lists every
double booking and every understaffed window, nothing else and nothing twice, in the order of
findings. -/
theorem validate_findings_exact {rules : Rules} (hrules : rules.Accepted) (policy : Policy)
    (hsize : s.size < capacity 32) (hdistinct : s.Distinct) :
    ∃ r, s.validate roster rules policy = .ok r ∧
      (∀ c, .conflict c ∈ r.findings ↔ s.DoubleBooked roster c) ∧
      (∀ v, .shortage v ∈ r.findings ↔ s.Understaffed roster rules policy v) ∧
      (∀ p d minute, rules.staffNeeded policy (s.headcount roster p d minute).children =
        .ok (rules.need policy (s.headcount roster p d minute))) ∧
      r.findings.Pairwise fun f g => f.key ≤ g.key ∧ f.key ≠ g.key := by
  refine ⟨_, validate_eq_ok (checkable_of_accepted hrules policy hsize), ?_, ?_, ?_, ?_⟩
  · intro c
    exact mem_sortBy.trans (conflict_mem_findings_iff hdistinct)
  · intro v
    exact mem_sortBy.trans (shortage_mem_findings_iff hrules policy hsize)
  · intro p d minute
    have hchildren : Rules.total (s.headcount roster p d minute).children ≤ s.size :=
      total_children_le_size p d minute
    obtain ⟨n, hneeded⟩ := Rules.staffNeeded_succeeds hrules policy
      (Nat.lt_of_le_of_lt hchildren hsize)
    rw [Rules.need_eq_of_staffNeeded hneeded, hneeded]
  · have hkeys : (s.findings roster rules policy).Pairwise fun f g => f.key ≠ g.key :=
      keys_differ hrules policy hsize hdistinct
    have hdiffer := ((sortBy_perm Finding.key _).pairwise_iff Ne.symm).mpr hkeys
    exact (pairwise_sortBy Finding.key _).and hdiffer

/-- A child who is brought a minute before the only member of staff comes, on a day for which this
member is booked twice. -/
theorem validate_findings_exact_early_child :
    let p : ProjectId := .ofNat 3
    let s : Snapshot := ⟨[⟨.ofNat 1, .ofNat 7, 4, 480, 720⟩, ⟨.ofNat 2, .ofNat 7, 4, 700, 800⟩,
      ⟨.ofNat 3, .ofNat 8, 4, 479, 500⟩, ⟨.ofNat 4, .ofNat 8, 4, 500, 800⟩,
      ⟨.ofNat 5, .ofNat 8, 9, 0, 60⟩, ⟨.ofNat 6, .ofNat 9, 4, 0, 60⟩], by decide⟩
    let roster := ((∅ : Roster).insert (.ofNat 7) ⟨p, .staff⟩).insert (.ofNat 8)
      ⟨p, .child .underTwo⟩
    ∃ r, s.validate roster ⟨3, 4, 8⟩ .pooled = .ok r ∧
      .conflict ⟨.ofNat 7, .thursday, .ofNat 1, .ofNat 2, ⟨.thursday, 700, 720⟩⟩ ∈ r.findings ∧
      .shortage ⟨p, .thursday, ⟨.thursday, 479, 480⟩, 1, 0, 1⟩ ∈ r.findings := by
  intro p s roster
  have hrules : Rules.Accepted ⟨3, 4, 8⟩ := by
    intro b
    cases b <;> decide
  have hdistinct : s.Distinct := show List.Nodup _ by decide
  have hconflict : s.DoubleBooked roster
      ⟨.ofNat 7, .thursday, .ofNat 1, .ofNat 2, ⟨.thursday, 700, 720⟩⟩ := by
    refine ⟨⟨.ofNat 1, .ofNat 7, 4, 480, 720⟩, by simp [s], ⟨.ofNat 2, .ofNat 7, 4, 700, 800⟩,
      by simp [s], ⟨.thursday, 480, 720⟩, ⟨.thursday, 700, 800⟩, p, ?_⟩
    exact ⟨rfl, rfl, rfl, rfl, rfl, ⟨700, by decide⟩, Or.inl (by decide), rfl⟩
  have hcounts : ∀ m, 479 ≤ m → m < 480 →
      0 = (s.headcount roster p .thursday m).staff ∧
        1 = Rules.need ⟨3, 4, 8⟩ .pooled (s.headcount roster p .thursday m) := by
    intro m hlo hhi
    obtain rfl : m = 479 := by omega
    decide +kernel
  have hlong : (⟨.thursday, 479, 480⟩ : Interval).start < 480 := by decide
  have hstaff := Shortage.image_minutes_of_forall hlong fun m hlo hhi => (hcounts m hlo hhi).1
  have hneed := Shortage.image_minutes_of_forall hlong fun m hlo hhi => (hcounts m hlo hhi).2
  have hmissing := Shortage.image_minutes_of_forall hlong fun m hlo hhi =>
    congrArg₂ (· - ·) (hcounts m hlo hhi).2 (hcounts m hlo hhi).1
  have hshortage : s.Understaffed roster ⟨3, 4, 8⟩ .pooled
      ⟨p, .thursday, ⟨.thursday, 479, 480⟩, 1, 0, 1⟩ := by
    refine ⟨⟨rfl, rfl, rfl, hlong, ?_, ?_, ?_, ?_⟩, ?_, ?_⟩
    · intro m hlo hhi
      obtain ⟨hstaff, hneed⟩ := hcounts m hlo hhi
      dsimp only
      omega
    · exact hneed ▸ isGreatest_singleton
    · exact hstaff ▸ isLeast_singleton
    · exact hmissing ▸ isGreatest_singleton
    · decide +kernel
    · decide +kernel
  obtain ⟨r, hr, hconflicts, hshortages, -⟩ :=
    validate_findings_exact hrules .pooled (show s.size < _ by decide) hdistinct
  exact ⟨r, hr, (hconflicts _).mpr hconflict, (hshortages _).mpr hshortage⟩

end Snapshot

end NurseryRota
