import NurseryRota.CachedRota
import NurseryRota.Proofs.TableViews

/-!
# The cached week tells the truth

A cached rota mirrors a rota when its tables are the rota's bookings by day and every report it
keeps is the report on its day.  Every edit and every report keeps the mirror: a shift edit
touches the days it takes a booking from or puts one on, and a roster edit those on which the
member is booked, which are the only ones that look the member up.  The merged report of the
mirror is then the report on the whole rota.
-/

namespace NurseryRota

def Rota.ofSnapshot (s : Snapshot) (roster : Roster) : Rota :=
  s.bookings.foldl Rota.store { Rota.empty with roster }

namespace CachedRota

structure Mirrors (rules : Rules) (policy : Policy) (c : CachedRota) (r : Rota) : Prop where
  rules : c.rules = rules
  policy : c.policy = policy
  roster : c.roster = r.roster
  bookings : c.bookings = r.shifts
  keyed : r.shifts.Keyed
  days : ∀ d, c.days.get d = r.shifts.filter fun _ b => b.day = d.number
  undated : c.undated = r.shifts.filter fun _ b => b.weekday? = none
  reports : ∀ d report, c.reports.get d = some report →
    c.validateBookings (c.days.get d) = .ok report

variable {rules : Rules} {policy : Policy} {c : CachedRota} {r : Rota}

/-! ## Shift edits -/

/-- A booking has been put on its day or taken from it, by one change to the tables that hold
it; its day is stale. -/
structure Refiled (c c' : CachedRota) (b : Booking) (change : Table Booking → Table Booking) :
    Prop where
  rules : c'.rules = c.rules
  policy : c'.policy = c.policy
  roster : c'.roster = c.roster
  bookings : c'.bookings = change c.bookings
  days : ∀ d, c'.days.get d = if b.day = d.number then change (c.days.get d) else c.days.get d
  undated : c'.undated = if b.weekday? = none then change c.undated else c.undated
  reports : ∀ d, c'.reports.get d = if b.day = d.number then none else c.reports.get d

theorem day_eq_number_iff {b : Booking} {e : Weekday} (h : b.weekday? = some e) (d : Weekday) :
    b.day = d.number ↔ d = e := by
  rw [← Booking.weekday?_eq_some_iff, h, Option.some.injEq, eq_comm]

theorem day_ne_number {b : Booking} (h : b.weekday? = none) (d : Weekday) :
    b.day ≠ d.number := by
  intro hd
  rw [Booking.weekday?_eq_some_iff.mpr hd] at h
  cases h

theorem refiled_book (c : CachedRota) (b : Booking) :
    Refiled c (c.book b) b fun t => t.insert b.id b := by
  unfold book
  cases hday : b.weekday? with
  | none =>
      have hnot := day_ne_number hday
      constructor <;> simp [hnot, hday]
  | some e =>
      have hiff := day_eq_number_iff hday
      constructor <;> try rfl
      · intro d
        by_cases hd : d = e
        · simp [ByDay.get_set, hiff, hd]
        · simp [ByDay.get_set, hiff, hd]
      · simp [hday, touch]
      · intro d
        simp only [touch, ByDay.get_set, hiff]

theorem refiled_unbook {id : ShiftId} {old : Booking} (hold : c.bookings.get? id = some old) :
    Refiled c (c.unbook id) old fun t => t.erase id := by
  unfold unbook
  rw [hold]
  dsimp only
  cases hday : old.weekday? with
  | none =>
      have hnot := day_ne_number hday
      constructor <;> simp [hnot, hday]
  | some e =>
      have hiff := day_eq_number_iff hday
      constructor <;> try rfl
      · intro d
        by_cases hd : d = e
        · simp [ByDay.get_set, hiff, hd]
        · simp [ByDay.get_set, hiff, hd]
      · simp [hday, touch]
      · intro d
        simp only [touch, ByDay.get_set, hiff]

theorem Mirrors.refiled (h : Mirrors rules policy c r) {c' : CachedRota} {b : Booking}
    {change : Table Booking → Table Booking} (hfiled : Refiled c c' b change)
    (hkeyed : (change r.shifts).Keyed)
    (hfilter : ∀ keep : Booking → Bool, (change r.shifts).filter (fun _ b => keep b) =
      if keep b then change (r.shifts.filter fun _ b => keep b)
      else r.shifts.filter fun _ b => keep b) :
    Mirrors rules policy c' { r with shifts := change r.shifts } where
  rules := hfiled.rules.trans h.rules
  policy := hfiled.policy.trans h.policy
  roster := hfiled.roster.trans h.roster
  bookings := by rw [hfiled.bookings, h.bookings]
  keyed := hkeyed
  days := by
    intro d
    rw [hfiled.days, h.days, hfilter fun b => decide (b.day = d.number)]
    simp only [decide_eq_true_eq]
  undated := by
    rw [hfiled.undated, h.undated, hfilter fun b => decide (b.weekday? = none)]
    simp only [decide_eq_true_eq]
  reports := by
    intro d report hreport
    rw [hfiled.reports] at hreport
    split at hreport
    · cases hreport
    · next hd =>
        unfold validateBookings
        rw [hfiled.roster, hfiled.rules, hfiled.policy, hfiled.days, if_neg hd]
        exact h.reports d report hreport

theorem Mirrors.book (h : Mirrors rules policy c r) {b : Booking} (habsent : r.shifts.get? b.id = none) :
    Mirrors rules policy (c.book b) (r.store b) := by
  refine h.refiled (refiled_book c b) (h.keyed.insert b) ?_
  intro keep
  have hnone : (r.shifts.filter fun _ b => keep b).get? b.id = none := by
    rw [Table.get?_filter, habsent]
    rfl
  rw [Table.filter_insert, Table.erase_eq_self hnone]

theorem Mirrors.unbook (h : Mirrors rules policy c r) (id : ShiftId) :
    Mirrors rules policy (c.unbook id) (r.discard id) := by
  cases hold : c.bookings.get? id with
  | none =>
      have hsame : r.discard id = r := by
        unfold Rota.discard
        rw [Table.erase_eq_self (by rw [← h.bookings, hold])]
      unfold CachedRota.unbook
      rw [hold, hsame]
      exact h
  | some old =>
      refine h.refiled (refiled_unbook hold) (h.keyed.erase id) ?_
      intro keep
      rw [Table.filter_erase]
      split
      · rfl
      · next hkeep =>
          apply Table.erase_eq_self
          rw [Table.get?_filter, ← h.bookings, hold]
          simp [hkeep]

theorem Mirrors.rebook (h : Mirrors rules policy c r) (b : Booking) :
    Mirrors rules policy ((c.unbook b.id).book b) (r.store b) := by
  have habsent : (r.discard b.id).shifts.get? b.id = none := by
    unfold Rota.discard
    rw [Table.get?_erase, if_pos rfl]
  have hstore : (r.discard b.id).store b = r.store b := by
    unfold Rota.store Rota.discard
    rw [Table.insert_erase]
  rw [← hstore]
  exact (h.unbook b.id).book habsent

/-! ## Roster edits -/

theorem touchMember_eq (c : CachedRota) (member : MemberId) :
    ∃ reports : ByDay (Option Report), c.touchMember member = { c with reports := reports } ∧
      ∀ d, reports.get d = if c.isBookedOn member d then none else c.reports.get d := by
  have hfold : ∀ (ds : List Weekday) (c : CachedRota), ∃ reports : ByDay (Option Report),
      ds.foldl (fun c d => if c.isBookedOn member d then c.touch d else c) c =
        { c with reports := reports } ∧
      ∀ d, reports.get d =
        if d ∈ ds ∧ c.isBookedOn member d then none else c.reports.get d := by
    intro ds
    induction ds with
    | nil =>
        intro c
        exact ⟨c.reports, rfl, by simp⟩
    | cons e ds ih =>
        intro c
        rw [List.foldl_cons]
        by_cases he : c.isBookedOn member e
        · obtain ⟨reports, hfolded, hreports⟩ := ih (c.touch e)
          refine ⟨reports, by rw [if_pos he, hfolded]; rfl, ?_⟩
          intro d
          have hbooked : (c.touch e).isBookedOn member d = c.isBookedOn member d := rfl
          rw [hreports, hbooked]
          by_cases hd : d = e
          · simp [hd, he, touch, ByDay.get_set]
          · simp [hd, touch, ByDay.get_set]
        · obtain ⟨reports, hfolded, hreports⟩ := ih c
          refine ⟨reports, by rw [if_neg he, hfolded], ?_⟩
          intro d
          rw [hreports]
          by_cases hd : d = e
          · simp [hd, he]
          · simp [hd]
  obtain ⟨reports, hfolded, hreports⟩ := hfold Weekday.all c
  refine ⟨reports, hfolded, ?_⟩
  intro d
  rw [hreports]
  simp [Weekday.mem_all]

theorem Mirrors.enrol (h : Mirrors rules policy c r) (member : MemberId) (roster : Roster)
    (hothers : ∀ m, m ≠ member → roster.get? m = r.roster.get? m) :
    Mirrors rules policy ({ c with roster := roster }.touchMember member) { r with roster := roster } := by
  obtain ⟨reports, htouched, hreports⟩ := touchMember_eq { c with roster := roster } member
  rw [htouched]
  refine ⟨h.rules, h.policy, rfl, h.bookings, h.keyed, h.days, h.undated, ?_⟩
  intro d report hreport
  dsimp only at hreport ⊢
  rw [hreports] at hreport
  split at hreport
  · cases hreport
  · next hbooked =>
      have hkept := h.reports d report hreport
      unfold validateBookings at hkept ⊢
      rw [← hkept]
      apply Snapshot.validate_congr
      intro b hb
      have hb : b ∈ (c.days.get d).values := mem_sortBy.mp hb
      rw [h.roster]
      apply hothers
      rintro rfl
      apply hbooked
      unfold isBookedOn
      rw [List.any_eq_true]
      exact ⟨b, hb, by simp⟩

theorem Mirrors.apply (h : Mirrors rules policy c r) (e : Edit) : Mirrors rules policy (c.apply e) (r.apply e) := by
  cases e with
  | memberRegistered id m =>
      change Mirrors rules policy ({ c with roster := c.roster.insert id m }.touchMember id)
        { r with roster := r.roster.insert id m }
      rw [h.roster]
      apply h.enrol
      intro n hn
      rw [Table.get?_insert, if_neg hn]
  | memberRemoved id =>
      change Mirrors rules policy ({ c with roster := c.roster.erase id }.touchMember id)
        { r with roster := r.roster.erase id }
      rw [h.roster]
      apply h.enrol
      intro n hn
      rw [Table.get?_erase, if_neg hn]
  | shiftAdded b => exact h.rebook b
  | shiftUpdated b => exact h.rebook b
  | shiftRemoved id => exact h.unbook id

/-! ## Beginnings -/

theorem mirrors_empty (rules : Rules) (policy : Policy) (roster : Roster) :
    Mirrors rules policy { empty rules policy with roster } { Rota.empty with roster } where
  rules := rfl
  policy := rfl
  roster := rfl
  bookings := rfl
  keyed := Table.Keyed.empty
  days := by
    intro d
    change (ByDay.const ∅).get d = (∅ : Table Booking).filter fun _ b => b.day = d.number
    rw [ByDay.get_const, Table.filter_empty]
  undated := by
    change ∅ = (∅ : Table Booking).filter fun _ b => b.weekday? = none
    rw [Table.filter_empty]
  reports := by
    intro d report hreport
    change (ByDay.const none).get d = some report at hreport
    rw [ByDay.get_const] at hreport
    cases hreport

theorem Mirrors.bookAll (h : Mirrors rules policy c r) {bookings : List Booking}
    (hdistinct : (bookings.map Booking.id).Nodup)
    (habsent : ∀ b ∈ bookings, r.shifts.get? b.id = none) :
    Mirrors rules policy (bookings.foldl CachedRota.book c) (bookings.foldl Rota.store r) := by
  induction bookings generalizing c r with
  | nil => exact h
  | cons b bookings ih =>
      obtain ⟨hb, hdistinct⟩ := List.nodup_cons.mp hdistinct
      apply ih (h.book (habsent b (by simp))) hdistinct
      intro a ha
      have hne : a.id ≠ b.id := by
        intro heq
        exact hb (heq ▸ List.mem_map_of_mem ha)
      unfold Rota.store
      rw [Table.get?_insert, if_neg hne]
      exact habsent a (by simp [ha])

theorem mirrors_ofSnapshot {s : Snapshot} (hdistinct : s.Distinct) (roster : Roster)
    (rules : Rules) (policy : Policy) :
    Mirrors rules policy (ofSnapshot s roster rules policy) (Rota.ofSnapshot s roster) :=
  (mirrors_empty rules policy roster).bookAll hdistinct fun _ _ => rfl

/-! ## Reports -/

theorem Mirrors.validateBookings_day (h : Mirrors rules policy c r) (d : Weekday) :
    c.validateBookings (c.days.get d) =
      ((r.view .all).shifts.onDay d).validate r.roster rules policy := by
  unfold validateBookings
  rw [h.days, h.roster, h.rules, h.policy, Snapshot.ofBookings_filter_day]
  rfl

theorem Mirrors.validateBookings_undated (h : Mirrors rules policy c r) :
    c.validateBookings c.undated =
      (r.view .all).shifts.undated.validate r.roster rules policy := by
  unfold validateBookings
  rw [h.undated, h.roster, h.rules, h.policy, Snapshot.ofBookings_filter_undated]
  rfl

/-- What refreshing days leads to: the mirror stays, without a fault the days have their
reports, and with one some day cannot be checked. -/
structure Refreshed (rules : Rules) (policy : Policy) (c : CachedRota) (r : Rota)
    (ds : List Weekday) (result : CachedRota × Option Fault) : Prop where
  mirrors : Mirrors rules policy result.1 r
  kept : ∀ d, (c.reports.get d).isSome → (result.1.reports.get d).isSome
  done : result.2 = none → ∀ d ∈ ds, (result.1.reports.get d).isSome
  faulty : result.2 ≠ none → ∃ d,
    ¬ Succeeds (((r.view .all).shifts.onDay d).validate r.roster rules policy)

theorem Mirrors.keep (h : Mirrors rules policy c r) {e : Weekday} {report : Report}
    (hvalidate : c.validateBookings (c.days.get e) = .ok report) (n : Nat) :
    Mirrors rules policy { c with reports := c.reports.set e (some report), revalidated := n } r := by
  refine ⟨h.rules, h.policy, h.roster, h.bookings, h.keyed, h.days, h.undated, ?_⟩
  intro d kept hreport
  dsimp only at hreport ⊢
  rw [ByDay.get_set] at hreport
  split at hreport
  · next hd =>
      cases hreport
      rw [hd]
      exact hvalidate
  · exact h.reports d kept hreport

theorem Mirrors.refresh (h : Mirrors rules policy c r) (ds : List Weekday) :
    Refreshed rules policy c r ds (c.refresh ds) := by
  induction ds generalizing c with
  | nil => exact ⟨h, fun _ hd => hd, by simp, fun hfault => absurd rfl hfault⟩
  | cons e ds ih =>
      unfold CachedRota.refresh
      by_cases hcached : (c.reports.get e).isSome
      · rw [if_pos hcached]
        have hrest := ih h
        refine ⟨hrest.mirrors, hrest.kept, ?_, hrest.faulty⟩
        intro hnone d hd
        rcases List.mem_cons.mp hd with rfl | hd
        · exact hrest.kept d hcached
        · exact hrest.done hnone d hd
      · rw [if_neg hcached]
        cases hvalidate : c.validateBookings (c.days.get e) with
        | error fault =>
            refine ⟨h, fun _ hd => hd, ?_, ?_⟩
            · intro hnone
              cases hnone
            · intro _
              refine ⟨e, ?_⟩
              rw [← h.validateBookings_day, hvalidate]
              exact not_succeeds_error fault
        | ok report =>
            have hrest := ih (h.keep hvalidate (c.revalidated + 1))
            refine ⟨hrest.mirrors, ?_, ?_, hrest.faulty⟩
            · intro d hd
              apply hrest.kept
              rw [ByDay.get_set]
              split
              · rfl
              · exact hd
            · intro hnone d hd
              rcases List.mem_cons.mp hd with rfl | hd
              · apply hrest.kept
                rw [ByDay.get_set, if_pos rfl]
                rfl
              · exact hrest.done hnone d hd

theorem Mirrors.afterReport (h : Mirrors rules policy c r) :
    Mirrors rules policy c.report.1 r := by
  have hrefresh := (h.refresh Weekday.all).mirrors
  unfold CachedRota.report
  split
  · next c' fault hresult =>
      rw [hresult] at hrefresh
      exact hrefresh
  · next c' hresult =>
      rw [hresult] at hrefresh
      split <;> exact hrefresh

theorem toOption_eq_none {α : Type} {x : Except Fault α} (h : ¬ Succeeds x) :
    x.toOption = none := by
  cases x with
  | error fault => rfl
  | ok a => exact absurd (succeeds_ok a) h

/-- A faultless refresh of the week leaves the report of every day. -/
theorem Refreshed.reports_of_done {result : CachedRota × Option Fault}
    (h : Refreshed rules policy c r Weekday.all result) (hdone : result.2 = none) :
    (r.view .all).shifts.Checkable r.roster rules policy ∧
      Weekday.all.filterMap result.1.reports.get = Weekday.all.map
        fun d => ((r.view .all).shifts.onDay d).reportOf r.roster rules policy := by
  have hday : ∀ d, ((r.view .all).shifts.onDay d).Checkable r.roster rules policy ∧
      result.1.reports.get d = some
        (((r.view .all).shifts.onDay d).reportOf r.roster rules policy) := by
    intro d
    obtain ⟨report, hreport⟩ :=
      Option.isSome_iff_exists.mp (h.done hdone d (Weekday.mem_all d))
    have hvalid := h.mirrors.reports d report hreport
    rw [h.mirrors.validateBookings_day, Snapshot.validate_eq_ok_iff] at hvalid
    rw [hreport, hvalid.2]
    exact ⟨hvalid.1, rfl⟩
  constructor
  · exact Snapshot.checkable_iff_onDay.mpr fun d => (hday d).1
  · rw [← List.filterMap_eq_map]
    apply List.filterMap_congr
    intro d _
    exact (hday d).2

/-- A cached rota reports on the rota that it mirrors, or neither is given a report. -/
theorem Mirrors.toOption_report (h : Mirrors rules policy c r) :
    c.report.2.toOption =
      ((r.view .all).shifts.validate r.roster rules policy).toOption := by
  have hrefresh := h.refresh Weekday.all
  have hundated : (r.view .all).shifts.undated.Checkable r.roster rules policy :=
    Snapshot.checkable_undated
  unfold CachedRota.report
  cases hresult : c.refresh Weekday.all with
  | mk c' fault? =>
      rw [hresult] at hrefresh
      cases fault? with
      | some fault =>
          obtain ⟨d, hd⟩ := hrefresh.faulty (by simp)
          symm
          apply toOption_eq_none
          intro hwhole
          have hcheck := Snapshot.checkable_iff_onDay.mp (Snapshot.checkable_of_validate hwhole) d
          exact hd ⟨_, Snapshot.validate_eq_ok hcheck⟩
      | none =>
          have hmirror : Mirrors rules policy c' r := hrefresh.mirrors
          obtain ⟨hcheck, hreports⟩ := hrefresh.reports_of_done rfl
          dsimp only at hreports
          have hmerge : Report.merge ((r.view .all).shifts.days.map
              fun part => part.reportOf r.roster rules policy) =
                (r.view .all).shifts.reportOf r.roster rules policy :=
            Snapshot.merge_reportOf_days h.keyed.distinct
          unfold Snapshot.days at hmerge
          rw [List.map_append, List.map_map] at hmerge
          dsimp only
          rw [hmirror.validateBookings_undated, Snapshot.validate_eq_ok hundated,
            Snapshot.validate_eq_ok hcheck, hreports, ← hmerge]
          rfl

end CachedRota

end NurseryRota
