import NurseryRota.Proofs.ShortageWindows

/-!
# The shortages of a team by its own intervals

Spans and slices are only the way to the shortages of a day.  What they come to can be said of the
intervals that a team is given: a member is there while any of their intervals lasts, however many
of them do, and the shortages are the maximal windows in which fewer staff are there than the
children who are there need.
-/

namespace NurseryRota

namespace Team

variable {t : Team} {d : Weekday} {minute : Int}

/-- The members of staff who have an interval of the day that covers the minute. -/
def staffThere (t : Team) (d : Weekday) (minute : Int) : Finset MemberId :=
  ((t.staff.filter fun s => s.interval.day = d && s.interval.covers minute).map
    Shift.member).toFinset

/-- The members who have an interval as a child of the band that is of the day and covers the
minute. -/
def childrenThere (t : Team) (d : Weekday) (minute : Int) (b : Band) : Finset MemberId :=
  ((t.children.filter fun a => a.band = b && a.shift.interval.day = d &&
    a.shift.interval.covers minute).map fun a => a.shift.member).toFinset

def staffAt (t : Team) (d : Weekday) (minute : Int) : Nat := (t.staffThere d minute).card

def childrenAt (t : Team) (d : Weekday) (minute : Int) : ByBand Nat :=
  ⟨(t.childrenThere d minute .underTwo).card, (t.childrenThere d minute .twoYearOld).card,
    (t.childrenThere d minute .threePlus).card⟩

theorem present_staff : t.present d .staff minute = t.staffThere d minute := by
  ext m
  simp only [mem_present, stays, List.mem_append, List.mem_map, staffThere, List.mem_toFinset,
    List.mem_filter, Bool.and_eq_true, decide_eq_true_eq]
  constructor
  · rintro ⟨stay, ⟨s, hs, rfl⟩ | ⟨a, -, rfl⟩, hmember, hrole, hday, hcovers⟩
    · exact ⟨s, ⟨hs, hday, hcovers⟩, hmember⟩
    · cases hrole
  · rintro ⟨s, ⟨hs, hday, hcovers⟩, hmember⟩
    exact ⟨_, Or.inl ⟨s, hs, rfl⟩, hmember, rfl, hday, hcovers⟩

theorem present_child (b : Band) : t.present d (.child b) minute = t.childrenThere d minute b := by
  ext m
  simp only [mem_present, stays, List.mem_append, List.mem_map, childrenThere, List.mem_toFinset,
    List.mem_filter, Bool.and_eq_true, decide_eq_true_eq]
  constructor
  · rintro ⟨stay, ⟨s, -, rfl⟩ | ⟨a, ha, rfl⟩, hmember, hrole, hday, hcovers⟩
    · cases hrole
    · exact ⟨a, ⟨ha, ⟨Role.child.inj hrole, hday⟩, hcovers⟩, hmember⟩
  · rintro ⟨a, ⟨ha, ⟨rfl, hday⟩, hcovers⟩, hmember⟩
    exact ⟨_, Or.inr ⟨a, ha, rfl⟩, hmember, rfl, hday, hcovers⟩

/-- The headcount that the slices of a day tell is the number of members there by their
intervals. -/
theorem headcount_eq : t.headcount d minute = ⟨t.staffAt d minute, t.childrenAt d minute⟩ := by
  simp only [headcount, Headcount.ofPresent, present_staff, present_child, staffAt, childrenAt]

theorem card_childrenThere_le (b : Band) :
    (t.childrenThere d minute b).card ≤ t.children.countP fun a => a.band = b := by
  have hkept : (t.children.filter fun a => a.band = b && a.shift.interval.day = d &&
      a.shift.interval.covers minute).length ≤ t.children.countP fun a => a.band = b := by
    rw [← List.countP_eq_length_filter]
    apply List.countP_mono_left
    intro a _ hkeep
    simp only [Bool.and_eq_true] at hkeep
    exact hkeep.1.1
  have hcard := List.toFinset_card_le ((t.children.filter fun a => a.band = b &&
    a.shift.interval.day = d && a.shift.interval.covers minute).map fun a => a.shift.member)
  rw [List.length_map] at hcard
  exact Nat.le_trans hcard hkept

theorem countP_bands (as : List Attendance) :
    as.countP (fun a => a.band = .underTwo) + as.countP (fun a => a.band = .twoYearOld) +
      as.countP (fun a => a.band = .threePlus) = as.length := by
  induction as with
  | nil => rfl
  | cons a as ih =>
      simp only [List.countP_cons, List.length_cons]
      cases hband : a.band <;> simp <;> omega

theorem total_childrenAt_le : Rules.total (t.childrenAt d minute) ≤ t.children.length := by
  have hbands := countP_bands t.children
  have hone : ∀ b, (t.childrenThere d minute b).card ≤ t.children.countP fun a => a.band = b :=
    card_childrenThere_le
  have hbaby := hone .underTwo
  have htoddler := hone .twoYearOld
  have holder := hone .threePlus
  simp only [Rules.total, childrenAt]
  omega

theorem length_stays : t.stays.length = t.staff.length + t.children.length := by
  simp [stays]

theorem valid_stays (hstaff : ∀ s ∈ t.staff, s.interval.Valid)
    (hchildren : ∀ a ∈ t.children, a.shift.interval.Valid) :
    ∀ stay ∈ t.stays, stay.interval.Valid := by
  intro stay hstay
  rcases List.mem_append.mp hstay with hstay | hstay
  · obtain ⟨s, hs, rfl⟩ := List.mem_map.mp hstay
    exact hstaff s hs
  · obtain ⟨a, ha, rfl⟩ := List.mem_map.mp hstay
    exact hchildren a ha

theorem valid_staff_of_stays (hvalid : ∀ s ∈ t.stays, s.interval.Valid) :
    ∀ s ∈ t.staff, s.interval.Valid := by
  intro s hs
  have hstay : ⟨s.member, .staff, s.interval⟩ ∈ t.stays :=
    List.mem_append.mpr (Or.inl (List.mem_map.mpr ⟨s, hs, rfl⟩))
  exact hvalid _ hstay

end Team

namespace Shortage

variable {project : ProjectId} {d : Weekday} {staff need : Int → Nat} {start : Int}
  {vs : List Shortage}

/-- The windows of all the runs hold the short minutes and no other ones. -/
theorem Collects.covers_iff (h : Collects project d staff need start vs)
    (hidle : ∀ m, m < start → ¬ staff m < need m) (m : Int) :
    (∃ v ∈ vs, v.window.covers m) ↔ staff m < need m := by
  simp only [Interval.covers_iff]
  constructor
  · rintro ⟨v, hv, hlo, hhi⟩
    exact (h.run v hv).short m hlo hhi
  · intro hshort
    have hbegun : start ≤ m := by
      by_contra hless
      exact hidle m (by omega) hshort
    exact h.complete m hbegun hshort

/-- Between two runs there is a minute at which nobody is missing. -/
theorem Collects.apart (h : Collects project d staff need start vs) :
    vs.Pairwise fun v w => ∃ m, v.window.stop ≤ m ∧ m < w.window.start ∧ need m ≤ staff m := by
  refine h.ascend.imp_of_mem ?_
  intro v w hv _ hgap
  exact ⟨v.window.stop, Int.le_refl _, hgap, Nat.not_lt.mp (h.run v hv).after⟩

end Shortage

namespace Team

variable {t : Team} {rules : Rules}

/-- Under accepted rules the shortages of a day are the maximal windows in which the team has fewer
staff than its children need, in order, and each tells the most needed, the fewest there and the
most missing at a minute of its window. -/
theorem shortages_exact (project : ProjectId) (hrules : rules.Accepted) (policy : Policy)
    (d : Weekday) (hstaff : ∀ s ∈ t.staff, s.interval.Valid)
    (hchildren : ∀ a ∈ t.children, a.shift.interval.Valid)
    (hsize : t.staff.length + t.children.length < capacity 32) :
    ∃ need : Int → Nat,
      (∀ m, rules.staffNeeded policy (t.childrenAt d m) = .ok (need m)) ∧
      ∃ vs, t.shortages project rules policy d = .ok vs ∧
        (∀ m, (∃ v ∈ vs, v.window.covers m) ↔ t.staffAt d m < need m) ∧
        (vs.Pairwise fun v w =>
          ∃ m, v.window.stop ≤ m ∧ m < w.window.start ∧ need m ≤ t.staffAt d m) ∧
        ∀ v ∈ vs, v.project = project ∧ v.day = d ∧ v.window.day = d ∧
          v.window.start < v.window.stop ∧
          IsGreatest (need '' v.window.minutes) v.required ∧
          IsLeast (t.staffAt d '' v.window.minutes) v.actual ∧
          IsGreatest ((fun m => need m - t.staffAt d m) '' v.window.minutes) v.shortfall := by
  have hvalid := valid_stays hstaff hchildren
  have hstays : t.stays.length < capacity 32 := by rwa [length_stays]
  have hcheckable := checkable_of_valid project hrules policy hvalid hstays d
  obtain ⟨start, hcollects, hidle⟩ := collects_shortagesOn project hrules policy d hvalid hstays
  simp only [headcount_eq] at hcollects hidle
  refine ⟨fun m => rules.need policy ⟨t.staffAt d m, t.childrenAt d m⟩, ?_,
    t.shortagesOn project rules policy d, shortages_eq_of_succeeds hcheckable, ?_,
    hcollects.apart, ?_⟩
  · intro m
    have hle : Rules.total (t.childrenAt d m) ≤ t.children.length := total_childrenAt_le
    have htotal : Rules.total (t.childrenAt d m) < capacity 32 := by omega
    obtain ⟨n, hneeded⟩ := Rules.staffNeeded_succeeds hrules policy htotal
    have hneed : rules.need policy ⟨t.staffAt d m, t.childrenAt d m⟩ = n :=
      Rules.need_eq_of_staffNeeded hneeded
    dsimp only
    rw [hneed]
    exact hneeded
  · exact hcollects.covers_iff hidle
  · intro v hv
    have hrun := hcollects.run v hv
    exact ⟨hrun.project_eq, hrun.day_eq, hrun.window_day, hrun.nonempty, hrun.required,
      hrun.actual, hrun.shortfall⟩

/-- A child comes a minute before the only member of staff, whose two intervals overlap, and stays
until midnight: the first window ends where the staff begin and the second where the day does. -/
theorem shortages_exact_until_midnight :
    let t : Team := ⟨[⟨.ofNat 1, .ofNat 7, ⟨.thursday, 480, 720⟩⟩,
      ⟨.ofNat 2, .ofNat 7, ⟨.thursday, 700, 1000⟩⟩, ⟨.ofNat 3, .ofNat 7, ⟨.friday, 0, 1440⟩⟩],
      [⟨⟨.ofNat 4, .ofNat 8, ⟨.thursday, 479, 1440⟩⟩, .underTwo⟩]⟩
    ∃ vs, t.shortages (.ofNat 3) ⟨3, 4, 8⟩ .pooled .thursday = .ok vs ∧
      (∃ v ∈ vs, v.window.covers 479) ∧ (¬ ∃ v ∈ vs, v.window.covers 480) ∧
      (¬ ∃ v ∈ vs, v.window.covers 999) ∧ (∃ v ∈ vs, v.window.covers 1000) ∧
      (∃ v ∈ vs, v.window.covers 1439) ∧ ¬ ∃ v ∈ vs, v.window.covers 1440 := by
  intro t
  have hrules : Rules.Accepted ⟨3, 4, 8⟩ := by
    intro b
    cases b <;> decide
  obtain ⟨need, hneeded, vs, hvs, hcovers, -⟩ := shortages_exact (t := t) (.ofNat 3) hrules
    .pooled .thursday (by decide) (by decide) (by decide)
  have hneed : ∀ m n, Rules.staffNeeded ⟨3, 4, 8⟩ .pooled (t.childrenAt .thursday m) = .ok n →
      need m = n := fun m n hn => Except.ok.inj ((hneeded m).symm.trans hn)
  refine ⟨vs, hvs, ?_⟩
  simp only [hcovers]
  rw [hneed 479 1 (by decide +kernel), hneed 480 1 (by decide +kernel),
    hneed 999 1 (by decide +kernel), hneed 1000 1 (by decide +kernel),
    hneed 1439 1 (by decide +kernel), hneed 1440 0 (by decide +kernel)]
  decide +kernel

end Team

end NurseryRota
