import NurseryRota.Proofs.ReportMeaning

/-!
# What one more booking does to a report

A minute is short when fewer staff are there than the children there need, and the shortages of a
report cover the short minutes and no others.  Staff who come in addition make no minute short, a
child who comes in addition makes none good, and no need grows when a ratio is raised or the policy
pools the bands.  Conflicts are pairs of bookings of one member, so a further booking takes none of
them away, and that of a child makes none.
-/

namespace NurseryRota

/-! ## Findings of one kind -/

section Kind

universe u v

variable {α : Type u} {β : Type v} {kind? : α → Option β} {ofKind : β → α}

/-- Of a list, the entries of one kind. -/
theorem mem_filterMap_iff (hkind : ∀ a b, kind? a = some b ↔ a = ofKind b) {xs : List α} {b : β} :
    b ∈ xs.filterMap kind? ↔ ofKind b ∈ xs := by
  rw [List.mem_filterMap]
  constructor
  · rintro ⟨a, ha, hb⟩
    exact (hkind a b).mp hb ▸ ha
  · intro hb
    exact ⟨ofKind b, hb, (hkind _ b).mpr rfl⟩

theorem pairwise_filterMap_of (hkind : ∀ a b, kind? a = some b ↔ a = ofKind b)
    {R : α → α → Prop} {xs : List α} (h : xs.Pairwise R) :
    (xs.filterMap kind?).Pairwise fun b c => R (ofKind b) (ofKind c) := by
  refine h.filterMap _ ?_
  intro a a' haa' b hb c hc
  rw [← (hkind a b).mp hb, ← (hkind a' c).mp hc]
  exact haa'

end Kind

namespace Finding

theorem conflict?_eq_some_iff (f : Finding) (c : Conflict) :
    f.conflict? = some c ↔ f = .conflict c := by
  cases f <;> simp [conflict?]

theorem shortage?_eq_some_iff (f : Finding) (v : Shortage) :
    f.shortage? = some v ↔ f = .shortage v := by
  cases f <;> simp [shortage?]

end Finding

/-! ## Short minutes -/

namespace Report

/-- The minute lies in a window of the project's day for which the report finds too few staff. -/
def Understaffed (r : Report) (p : ProjectId) (d : Weekday) (minute : Int) : Prop :=
  ∃ v ∈ r.shortages, v.project = p ∧ v.day = d ∧ v.window.covers minute

/-- Every minute that is understaffed by this report is so by the other. -/
def UnderstaffedWithin (r r' : Report) : Prop :=
  ∀ p d minute, r.Understaffed p d minute → r'.Understaffed p d minute

theorem mem_shortages {r : Report} {v : Shortage} : v ∈ r.shortages ↔ .shortage v ∈ r.findings :=
  mem_filterMap_iff Finding.shortage?_eq_some_iff

theorem mem_conflicts {r : Report} {c : Conflict} : c ∈ r.conflicts ↔ .conflict c ∈ r.findings :=
  mem_filterMap_iff Finding.conflict?_eq_some_iff

end Report

namespace Snapshot

variable {s : Snapshot} {roster : Roster} {rules : Rules} {policy : Policy}

/-- Fewer staff are there than the children there need. -/
def Short (s : Snapshot) (roster : Roster) (rules : Rules) (policy : Policy) (p : ProjectId)
    (d : Weekday) (minute : Int) : Prop :=
  (s.headcount roster p d minute).staff <
    rules.rounded policy (s.headcount roster p d minute).children

theorem need_headcount (hrules : rules.Accepted) (policy : Policy) (hsize : s.size < capacity 32)
    (p : ProjectId) (d : Weekday) (minute : Int) :
    rules.need policy (s.headcount roster p d minute) =
      rules.rounded policy (s.headcount roster p d minute).children := by
  have hchildren : Rules.total (s.headcount roster p d minute).children ≤ s.size :=
    total_children_le_size p d minute
  exact Rules.need_eq_of_staffNeeded
    (Rules.staffNeeded_eq_ok hrules policy (Nat.lt_of_le_of_lt hchildren hsize))

theorem mem_shortages_reportOf (hrules : rules.Accepted) (policy : Policy)
    (hsize : s.size < capacity 32) {v : Shortage} :
    v ∈ (s.reportOf roster rules policy).shortages ↔ s.Understaffed roster rules policy v :=
  Report.mem_shortages.trans (mem_sortBy.trans (shortage_mem_findings_iff hrules policy hsize))

theorem understaffed_reportOf_iff (hrules : rules.Accepted) (policy : Policy)
    (hsize : s.size < capacity 32) {p : ProjectId} {d : Weekday} {minute : Int} :
    (s.reportOf roster rules policy).Understaffed p d minute ↔
      s.Short roster rules policy p d minute := by
  unfold Short
  rw [← need_headcount hrules policy hsize]
  constructor
  · rintro ⟨v, hv, rfl, rfl, hcovers⟩
    obtain ⟨hlo, hhi⟩ := Interval.mem_minutes.mp hcovers
    exact ((mem_shortages_reportOf hrules policy hsize).mp hv).short minute hlo hhi
  · intro hshort
    by_cases hgroup : ∃ g ∈ s.groups roster, g.1 = p
    · obtain ⟨g, hg, rfl⟩ := hgroup
      obtain ⟨start, hcollects, hidle⟩ := collects_shortagesOn hrules policy hsize hg d
      have hstart : start ≤ minute := by
        by_contra hbefore
        exact hidle minute (by omega) hshort
      obtain ⟨v, hv, hcovers⟩ := hcollects.complete minute hstart hshort
      obtain ⟨hproject, hday, hrun⟩ := (mem_shortagesOn_iff hrules policy hsize hg).mp hv
      exact ⟨v, (mem_shortages_reportOf hrules policy hsize).mpr hrun, hproject, hday,
        Interval.mem_minutes.mpr hcovers⟩
    · -- A project without a group has nobody there, and nobody needs no staff.
      have hnobody := headcount_of_no_group (fun g hg hp => hgroup ⟨g, hg, hp⟩) d minute
      rw [hnobody, Rules.need_nobody hrules] at hshort
      exact absurd hshort (Nat.not_lt_zero _)

/-! ## A further booking -/

/-- The snapshot with one more booking. -/
def insert (s : Snapshot) (b : Booking) : Snapshot := .ofBookings (b :: s.bookings)

variable {b : Booking}

theorem mem_insert {x : Booking} : x ∈ (s.insert b).bookings ↔ x = b ∨ x ∈ s.bookings :=
  mem_sortBy.trans List.mem_cons

theorem size_insert (s : Snapshot) (b : Booking) : (s.insert b).size = s.size + 1 :=
  length_sortBy Booking.key (b :: s.bookings)

theorem size_insert_lt (b : Booking) (h : s.size < capacity 32 - 1) :
    (s.insert b).size < capacity 32 := by
  rw [size_insert]
  omega

theorem Distinct.insert (h : s.Distinct) (hid : b.id ∉ s.bookings.map Booking.id) :
    (s.insert b).Distinct := by
  have hcons : ((b :: s.bookings).map Booking.id).Nodup := List.nodup_cons.mpr ⟨hid, h⟩
  exact ((sortBy_perm Booking.key (b :: s.bookings)).map Booking.id).nodup_iff.mpr hcons

theorem mem_present_iff_attends {p : ProjectId} {d : Weekday} {r : Role} {minute : Int}
    {m : MemberId} : m ∈ s.present roster p d r minute ↔
      ∃ x ∈ s.bookings, x.attends roster ⟨p, r⟩ d minute ∧ x.member = m := by
  unfold present
  simp only [List.mem_toFinset, List.mem_map, List.mem_filter, and_assoc]

theorem present_subset_insert (p : ProjectId) (d : Weekday) (r : Role) (minute : Int) :
    s.present roster p d r minute ⊆ (s.insert b).present roster p d r minute := by
  intro m hm
  obtain ⟨x, hx, hattends, hmember⟩ := mem_present_iff_attends.mp hm
  exact mem_present_iff_attends.mpr ⟨x, mem_insert.mpr (Or.inr hx), hattends, hmember⟩

theorem present_insert_of_absent {p : ProjectId} {d : Weekday} {r : Role} {minute : Int}
    (habsent : ¬ b.attends roster ⟨p, r⟩ d minute) :
    (s.insert b).present roster p d r minute = s.present roster p d r minute := by
  apply Finset.Subset.antisymm
  · intro m hm
    obtain ⟨x, hx, hattends, hmember⟩ := mem_present_iff_attends.mp hm
    rcases mem_insert.mp hx with rfl | hx
    · exact absurd hattends habsent
    · exact mem_present_iff_attends.mpr ⟨x, hx, hattends, hmember⟩
  · exact present_subset_insert p d r minute

theorem staff_le_insert (p : ProjectId) (d : Weekday) (minute : Int) :
    (s.headcount roster p d minute).staff ≤ ((s.insert b).headcount roster p d minute).staff :=
  Finset.card_le_card (present_subset_insert p d .staff minute)

theorem children_le_insert (p : ProjectId) (d : Weekday) (minute : Int) (band : Band) :
    (s.headcount roster p d minute).children.get band ≤
      ((s.insert b).headcount roster p d minute).children.get band := by
  have hsubset : s.present roster p d (.child band) minute ⊆
      (s.insert b).present roster p d (.child band) minute := present_subset_insert p d _ minute
  have hcard := Finset.card_le_card hsubset
  cases band <;> exact hcard

section Enrolled

variable {i : Interval} {e : Enrolment} (hnormal : b.normalize = .ok i)
  (henrolled : roster.get? b.member = some e)

include henrolled in
theorem enrolment_of_attends {k : Enrolment} {d : Weekday} {minute : Int}
    (h : b.attends roster k d minute) : k = e := by
  obtain ⟨j, -, hmember, -, -⟩ := Booking.attends_iff.mp h
  rw [henrolled] at hmember
  exact (Option.some.inj hmember).symm

include henrolled in
/-- A further booking of staff leaves the children as they are. -/
theorem children_insert_of_staff (hrole : e.role = .staff) (p : ProjectId) (d : Weekday)
    (minute : Int) : ((s.insert b).headcount roster p d minute).children =
      (s.headcount roster p d minute).children := by
  have hsame : ∀ band, (s.insert b).present roster p d (.child band) minute =
      s.present roster p d (.child band) minute := by
    intro band
    apply present_insert_of_absent
    intro hattends
    have hchild := congrArg Enrolment.role (enrolment_of_attends henrolled hattends)
    rw [hrole] at hchild
    cases hchild
  unfold headcount Headcount.ofPresent
  simp only [hsame]

include henrolled in
/-- A further booking of a child leaves the staff as they are. -/
theorem staff_insert_of_child {band : Band} (hrole : e.role = .child band) (p : ProjectId)
    (d : Weekday) (minute : Int) : ((s.insert b).headcount roster p d minute).staff =
      (s.headcount roster p d minute).staff := by
  have hsame : (s.insert b).present roster p d .staff minute =
      s.present roster p d .staff minute := by
    apply present_insert_of_absent
    intro hattends
    have hstaff := congrArg Enrolment.role (enrolment_of_attends henrolled hattends)
    rw [hrole] at hstaff
    cases hstaff
  exact congrArg Finset.card hsame

include hnormal henrolled in
/-- A further booking changes nothing in other projects and on other days. -/
theorem headcount_insert_of_ne {p : ProjectId} {d : Weekday} (hne : (p, d) ≠ (e.project, i.day))
    (minute : Int) : (s.insert b).headcount roster p d minute = s.headcount roster p d minute := by
  have hsame : ∀ r, (s.insert b).present roster p d r minute = s.present roster p d r minute := by
    intro r
    apply present_insert_of_absent
    intro hattends
    obtain ⟨j, hj, hmember, hday, -⟩ := Booking.attends_iff.mp hattends
    obtain rfl : i = j := Except.ok.inj (hnormal.symm.trans hj)
    have hproject := congrArg Enrolment.project (enrolment_of_attends henrolled hattends)
    exact hne (Prod.ext hproject hday.symm)
  unfold headcount
  simp only [hsame]

include hnormal henrolled in
theorem understaffed_insert_of_ne {v : Shortage} (hne : (v.project, v.day) ≠ (e.project, i.day)) :
    (s.insert b).Understaffed roster rules policy v ↔ s.Understaffed roster rules policy v := by
  unfold Understaffed
  simp only [headcount_insert_of_ne hnormal henrolled hne]

theorem doubleBooked_insert {c : Conflict} (h : s.DoubleBooked roster c) :
    (s.insert b).DoubleBooked roster c := by
  obtain ⟨x, hx, y, hy, hc⟩ := h
  exact ⟨x, mem_insert.mpr (Or.inr hx), y, mem_insert.mpr (Or.inr hy), hc⟩

include henrolled in
theorem doubleBooked_insert_of_child {band : Band} (hrole : e.role = .child band) {c : Conflict} :
    (s.insert b).DoubleBooked roster c ↔ s.DoubleBooked roster c := by
  refine ⟨?_, doubleBooked_insert⟩
  rintro ⟨x, hx, y, hy, j, k, p, hj, hk, hmember, hstaff, hc⟩
  have hold : ∀ z ∈ (s.insert b).bookings, roster.get? z.member = some ⟨p, .staff⟩ →
      z ∈ s.bookings := by
    intro z hz hzstaff
    rcases mem_insert.mp hz with rfl | hz
    · rw [henrolled] at hzstaff
      cases hzstaff
      cases hrole
    · exact hz
  exact ⟨x, hold x hx hstaff, y, hold y hy (hmember ▸ hstaff), j, k, p, hj, hk, hmember, hstaff, hc⟩

end Enrolled

/-! ## What a report lists -/

section Reports

variable (hrules : rules.Accepted) (policy : Policy) (hsize : s.size < capacity 32)
  (hdistinct : s.Distinct)

include hdistinct in
theorem mem_conflicts_reportOf {c : Conflict} :
    c ∈ (s.reportOf roster rules policy).conflicts ↔ s.DoubleBooked roster c :=
  Report.mem_conflicts.trans (mem_sortBy.trans (conflict_mem_findings_iff hdistinct))

include hrules hsize hdistinct

theorem findings_ascend : (s.reportOf roster rules policy).findings.Pairwise
    fun f g => f.key ≤ g.key ∧ f.key ≠ g.key :=
  sortBy_ascends (keys_differ hrules policy hsize hdistinct)

theorem conflicts_ascend : (s.reportOf roster rules policy).conflicts.Pairwise fun a b =>
    (Finding.conflict a).key ≤ (Finding.conflict b).key ∧
      (Finding.conflict a).key ≠ (Finding.conflict b).key :=
  pairwise_filterMap_of Finding.conflict?_eq_some_iff
    (findings_ascend hrules policy hsize hdistinct)

theorem shortages_ascend : (s.reportOf roster rules policy).shortages.Pairwise fun a b =>
    (Finding.shortage a).key ≤ (Finding.shortage b).key ∧
      (Finding.shortage a).key ≠ (Finding.shortage b).key :=
  pairwise_filterMap_of Finding.shortage?_eq_some_iff
    (findings_ascend hrules policy hsize hdistinct)

end Reports

/-! ## Two reports -/

section Comparison

variable (hrules : rules.Accepted) (policy : Policy) (hsize : s.size < capacity 32 - 1)
  (hdistinct : s.Distinct) {i : Interval} {e : Enrolment} (hnormal : b.normalize = .ok i)
  (henrolled : roster.get? b.member = some e) (hid : b.id ∉ s.bookings.map Booking.id)

include hrules hsize henrolled in
theorem understaffedWithin_of_staff (hrole : e.role = .staff) :
    ((s.insert b).reportOf roster rules policy).UnderstaffedWithin
      (s.reportOf roster rules policy) := by
  have hsize' : (s.insert b).size < capacity 32 := size_insert_lt b hsize
  intro p d minute h
  rw [understaffed_reportOf_iff hrules policy hsize'] at h
  rw [understaffed_reportOf_iff hrules policy (by omega)]
  unfold Short at h ⊢
  rw [children_insert_of_staff henrolled hrole] at h
  exact Nat.lt_of_le_of_lt (staff_le_insert p d minute) h

include hrules hsize henrolled in
theorem understaffedWithin_of_child {band : Band} (hrole : e.role = .child band) :
    (s.reportOf roster rules policy).UnderstaffedWithin
      ((s.insert b).reportOf roster rules policy) := by
  have hsize' : (s.insert b).size < capacity 32 := size_insert_lt b hsize
  intro p d minute h
  rw [understaffed_reportOf_iff hrules policy (by omega)] at h
  rw [understaffed_reportOf_iff hrules policy hsize']
  unfold Short at h ⊢
  rw [staff_insert_of_child henrolled hrole]
  exact Nat.lt_of_lt_of_le h (Rules.rounded_mono (children_le_insert p d minute) policy)

include hrules hsize hdistinct hid henrolled in
theorem conflicts_insert_of_child {band : Band} (hrole : e.role = .child band) :
    ((s.insert b).reportOf roster rules policy).conflicts =
      (s.reportOf roster rules policy).conflicts := by
  have hsize' : (s.insert b).size < capacity 32 := size_insert_lt b hsize
  refine eq_of_mem_iff (conflicts_ascend hrules policy hsize' (hdistinct.insert hid))
    (conflicts_ascend hrules policy (by omega) hdistinct) ?_
  intro c
  rw [mem_conflicts_reportOf policy (hdistinct.insert hid), mem_conflicts_reportOf policy hdistinct]
  exact doubleBooked_insert_of_child henrolled hrole

include hrules hsize hdistinct hid hnormal henrolled in
/-- The shortages of other projects and of other days are the same, entry for entry. -/
theorem shortages_insert_of_ne :
    ((s.insert b).reportOf roster rules policy).shortages.filter
        (fun v => (v.project, v.day) ≠ (e.project, i.day)) =
      (s.reportOf roster rules policy).shortages.filter
        fun v => (v.project, v.day) ≠ (e.project, i.day) := by
  have hsize' : (s.insert b).size < capacity 32 := size_insert_lt b hsize
  refine eq_of_mem_iff
    ((shortages_ascend hrules policy hsize' (hdistinct.insert hid)).filter _)
    ((shortages_ascend hrules policy (by omega) hdistinct).filter _) ?_
  intro v
  rw [List.mem_filter, List.mem_filter, mem_shortages_reportOf hrules policy hsize',
    mem_shortages_reportOf hrules policy (by omega), decide_eq_true_eq]
  exact and_congr_left fun hne => understaffed_insert_of_ne hnormal henrolled hne

end Comparison

theorem understaffedWithin_of_rules {rules' : Rules} (hrules : rules.Accepted)
    (hrules' : rules'.Accepted) (hle : ∀ band, rules.get band ≤ rules'.get band)
    (hsize : s.size < capacity 32) : (s.reportOf roster rules' policy).UnderstaffedWithin
      (s.reportOf roster rules policy) := by
  intro p d minute h
  rw [understaffed_reportOf_iff hrules' policy hsize] at h
  rw [understaffed_reportOf_iff hrules policy hsize]
  exact Nat.lt_of_lt_of_le h (Rules.rounded_anti hrules hle policy)

theorem understaffedWithin_of_pooled (hrules : rules.Accepted) (hsize : s.size < capacity 32) :
    (s.reportOf roster rules .pooled).UnderstaffedWithin
      (s.reportOf roster rules .perBand) := by
  intro p d minute h
  rw [understaffed_reportOf_iff hrules .pooled hsize] at h
  rw [understaffed_reportOf_iff hrules .perBand hsize]
  exact Nat.lt_of_lt_of_le h Rules.rounded_pooled_le

/-- A usable booking of staff with a new id makes no minute understaffed, keeps every conflict and
touches no shortage of another project or day; one of a child leaves every understaffed minute so
and every conflict as it is; higher ratios make no minute understaffed; and what is understaffed
with the bands pooled is so with the bands apart. -/
theorem validate_monotone (hrules : rules.Accepted) (policy : Policy)
    (hsize : s.size < capacity 32 - 1) (hdistinct : s.Distinct) :
    ∃ r, s.validate roster rules policy = .ok r ∧
      (∀ b i e, b.normalize = .ok i → roster.get? b.member = some e →
        b.id ∉ s.bookings.map Booking.id →
          ∃ r', (s.insert b).validate roster rules policy = .ok r' ∧
            (e.role = .staff → r'.UnderstaffedWithin r ∧ (∀ c ∈ r.conflicts, c ∈ r'.conflicts) ∧
              r'.shortages.filter (fun v => (v.project, v.day) ≠ (e.project, i.day)) =
                r.shortages.filter fun v => (v.project, v.day) ≠ (e.project, i.day)) ∧
            ∀ band, e.role = .child band →
              r.UnderstaffedWithin r' ∧ r'.conflicts = r.conflicts) ∧
      (∀ rules' : Rules, rules'.Accepted → (∀ band, rules.get band ≤ rules'.get band) →
        ∃ r', s.validate roster rules' policy = .ok r' ∧ r'.UnderstaffedWithin r) ∧
      (policy = .pooled → ∃ r', s.validate roster rules .perBand = .ok r' ∧
        r.UnderstaffedWithin r') := by
  have hfits : s.size < capacity 32 := by omega
  refine ⟨_, validate_eq_ok (checkable_of_accepted hrules policy hfits), ?_, ?_, ?_⟩
  · intro b i e hnormal henrolled hid
    have hmore : (s.insert b).Checkable roster rules policy :=
      checkable_of_accepted hrules policy (size_insert_lt b hsize)
    refine ⟨_, validate_eq_ok hmore, ?_, ?_⟩
    · intro hrole
      refine ⟨understaffedWithin_of_staff hrules policy hsize henrolled hrole, ?_,
        shortages_insert_of_ne hrules policy hsize hdistinct hnormal henrolled hid⟩
      intro c hc
      rw [mem_conflicts_reportOf policy hdistinct] at hc
      rw [mem_conflicts_reportOf policy (hdistinct.insert hid)]
      exact doubleBooked_insert hc
    · intro band hrole
      exact ⟨understaffedWithin_of_child hrules policy hsize henrolled hrole,
        conflicts_insert_of_child hrules policy hsize hdistinct henrolled hid hrole⟩
  · intro rules' hrules' hle
    exact ⟨_, validate_eq_ok (checkable_of_accepted hrules' policy hfits),
      understaffedWithin_of_rules hrules hrules' hle hfits⟩
  · rintro rfl
    exact ⟨_, validate_eq_ok (checkable_of_accepted hrules .perBand hfits),
      understaffedWithin_of_pooled hrules hfits⟩

/-- A child comes before the only member of staff, who is booked twice.  This member is then booked
a third time, or another child is brought in addition, or the ratios are raised. -/
theorem validate_monotone_early_child :
    let p : ProjectId := .ofNat 3
    let s : Snapshot := ⟨[⟨.ofNat 1, .ofNat 8, 4, 480, 600⟩, ⟨.ofNat 2, .ofNat 7, 4, 500, 600⟩,
      ⟨.ofNat 3, .ofNat 7, 4, 560, 620⟩], by decide⟩
    let roster := (((∅ : Roster).insert (.ofNat 7) ⟨p, .staff⟩).insert (.ofNat 8)
      ⟨p, .child .underTwo⟩).insert (.ofNat 9) ⟨p, .child .threePlus⟩
    let third : Booking := ⟨.ofNat 4, .ofNat 7, 4, 470, 510⟩
    let child : Booking := ⟨.ofNat 5, .ofNat 9, 4, 600, 640⟩
    ∃ r, s.validate roster ⟨3, 4, 8⟩ .pooled = .ok r ∧
      (∃ r', (s.insert third).validate roster ⟨3, 4, 8⟩ .pooled = .ok r' ∧
        r'.UnderstaffedWithin r ∧ ∀ c ∈ r.conflicts, c ∈ r'.conflicts) ∧
      (∃ r', (s.insert child).validate roster ⟨3, 4, 8⟩ .pooled = .ok r' ∧
        r.UnderstaffedWithin r' ∧ r'.conflicts = r.conflicts) ∧
      (∃ r', s.validate roster ⟨3, 5, 64⟩ .pooled = .ok r' ∧ r'.UnderstaffedWithin r) ∧
      ∃ r', s.validate roster ⟨3, 4, 8⟩ .perBand = .ok r' ∧ r.UnderstaffedWithin r' := by
  intro p s roster third child
  have hrules : Rules.Accepted ⟨3, 4, 8⟩ := by
    intro band
    cases band <;> decide
  have hrules' : Rules.Accepted ⟨3, 5, 64⟩ := by
    intro band
    cases band <;> decide
  have hle : ∀ band, ByBand.get ⟨3, 4, 8⟩ band ≤ ByBand.get ⟨3, 5, 64⟩ band := by
    intro band
    cases band <;> decide
  have hdistinct : s.Distinct := show List.Nodup _ by decide
  have hsize : s.size < capacity 32 - 1 := by decide
  have hstaff : roster.get? third.member = some ⟨p, .staff⟩ := by decide
  have hchild : roster.get? child.member = some ⟨p, .child .threePlus⟩ := by decide
  have hthird : third.normalize = .ok ⟨.thursday, 470, 510⟩ := by decide
  have hbrought : child.normalize = .ok ⟨.thursday, 600, 640⟩ := by decide
  obtain ⟨r, hr, hmore, hraised, hapart⟩ := validate_monotone hrules .pooled hsize hdistinct
  obtain ⟨r₁, hr₁, hfewer, -⟩ := hmore third _ _ hthird hstaff (by decide)
  obtain ⟨r₂, hr₂, -, hmoreShort⟩ := hmore child _ _ hbrought hchild (by decide)
  obtain ⟨hwithin, hkept, -⟩ := hfewer rfl
  exact ⟨r, hr, ⟨r₁, hr₁, hwithin, hkept⟩, ⟨r₂, hr₂, hmoreShort .threePlus rfl⟩,
    hraised _ hrules' hle, hapart rfl⟩

end Snapshot

end NurseryRota
