import NurseryRota.Proofs.CachedRuns
import NurseryRota.Proofs.IndependentEdits

/-!
# Exactly the touched days are stale

A stale day costs a validation and a day that is wrongly fresh a wrong report, so both directions
matter.  An edit touches a day by the state it is applied to: a later edit finds the bookings where
the earlier ones have left them.  A report validates each stale day once, and every validation takes
one day from the stale ones, so the days validated and the days still stale have one sum throughout.
-/

namespace NurseryRota

/-! ## What an edit touches -/

namespace Rota

/-- A booking of that id is stored on the day. -/
def Stores (r : Rota) (id : ShiftId) (d : Weekday) : Prop :=
  ∃ b, r.shifts.get? id = some b ∧ b.day = d.number

/-- The member has a booking stored on the day. -/
def Books (r : Rota) (member : MemberId) (d : Weekday) : Prop :=
  ∃ id b, r.shifts.get? id = some b ∧ b.member = member ∧ b.day = d.number

/-- Applied to the rota, the edit takes a booking from the day or puts one there, or it registers or
removes a member who is booked on the day. -/
def Touches (r : Rota) (d : Weekday) : Edit → Prop
  | .memberRegistered id _ => r.Books id d
  | .memberRemoved id => r.Books id d
  | .shiftAdded b => r.Stores b.id d ∨ b.day = d.number
  | .shiftUpdated b => r.Stores b.id d ∨ b.day = d.number
  | .shiftRemoved id => r.Stores id d

/-- One of the edits touches the day at the moment when its turn comes. -/
def Touched (r : Rota) (edits : List Edit) (d : Weekday) : Prop :=
  ∃ before e after, edits = before ++ e :: after ∧ (r.applyAll before).Touches d e

variable {r : Rota} {d : Weekday} {e : Edit} {edits : List Edit}

theorem not_touched_nil : ¬ r.Touched [] d := by
  rintro ⟨before, e, after, hedits, -⟩
  simp at hedits

theorem touched_cons : r.Touched (e :: edits) d ↔ r.Touches d e ∨ (r.apply e).Touched edits d := by
  constructor
  · rintro ⟨before, f, after, hedits, htouches⟩
    cases before with
    | nil =>
        obtain ⟨rfl, -⟩ := List.cons.inj hedits
        exact Or.inl htouches
    | cons g before =>
        obtain ⟨rfl, hrest⟩ := List.cons.inj hedits
        exact Or.inr ⟨before, f, after, hrest, htouches⟩
  · rintro (htouches | ⟨before, f, after, rfl, htouches⟩)
    · exact ⟨[], e, edits, rfl, htouches⟩
    · exact ⟨e :: before, f, after, rfl, htouches⟩

end Rota

namespace CachedRota

variable {rules : Rules} {policy : Policy} {c : CachedRota} {r : Rota} {d : Weekday} {e : Edit}

theorem Mirrors.isBookedOn_iff (h : Mirrors rules policy c r) {member : MemberId} :
    c.isBookedOn member d = true ↔ r.Books member d := by
  unfold isBookedOn Rota.Books
  rw [h.days, Table.values_filter r.shifts fun b => decide (b.day = d.number)]
  simp only [List.any_eq_true, List.mem_filter, decide_eq_true_eq, Table.values, List.mem_map,
    Table.get?_eq_some_iff]
  constructor
  · rintro ⟨_, ⟨⟨⟨id, b⟩, hentry, rfl⟩, hday⟩, hmember⟩
    exact ⟨id, b, hentry, hmember, hday⟩
  · rintro ⟨id, b, hentry, hmember, hday⟩
    exact ⟨b, ⟨⟨_, hentry, rfl⟩, hday⟩, hmember⟩

theorem Mirrors.any_bookings_iff (h : Mirrors rules policy c r) {id : ShiftId} :
    (c.bookings.get? id).any (fun b => b.day = d.number) = true ↔ r.Stores id d := by
  unfold Rota.Stores
  rw [h.bookings]
  simp [Option.any_eq_true]

theorem Mirrors.touches_iff (h : Mirrors rules policy c r) :
    c.touches e d = true ↔ r.Touches d e := by
  cases e with
  | memberRegistered id m => exact h.isBookedOn_iff
  | memberRemoved id => exact h.isBookedOn_iff
  | shiftAdded b =>
      unfold touches moves Rota.Touches
      simp [Edit.subject, Edit.booking?, ← h.any_bookings_iff]
  | shiftUpdated b =>
      unfold touches moves Rota.Touches
      simp [Edit.subject, Edit.booking?, ← h.any_bookings_iff]
  | shiftRemoved id =>
      unfold touches moves Rota.Touches
      simp [Edit.subject, Edit.booking?, ← h.any_bookings_iff]

theorem Mirrors.mem_staleDays_applyAll (h : Mirrors rules policy c r) (edits : List Edit) :
    d ∈ (c.applyAll edits).staleDays ↔ d ∈ c.staleDays ∨ r.Touched edits d := by
  induction edits generalizing c r with
  | nil => simp [applyAll, Rota.not_touched_nil]
  | cons e edits ih =>
      have htail := ih (h.apply e)
      rw [mem_staleDays_apply, h.touches_iff] at htail
      rw [Rota.touched_cons, ← or_assoc, or_comm (a := d ∈ c.staleDays)]
      exact htail

/-! ## The first report -/

theorem staleDays_eq_all (hnone : ∀ d, c.reports.get d = none) : c.staleDays = Weekday.all := by
  unfold staleDays
  rw [List.filter_eq_self]
  intro d _
  rw [hnone]
  rfl

theorem reports_bookAll {bookings : List Booking} (hnone : ∀ d, c.reports.get d = none) :
    ∀ d, (bookings.foldl book c).reports.get d = none := by
  induction bookings generalizing c with
  | nil => exact hnone
  | cons b bookings ih =>
      apply ih
      intro d
      rw [(refiled_book c b).reports, hnone, ite_self]

theorem Begins.reports (h : Begins rules policy c r) : ∀ d, c.reports.get d = none := by
  cases h with
  | empty => exact ByDay.get_const none
  | ofSnapshot s roster distinct => exact reports_bookAll (ByDay.get_const none)

theorem run_append (c : CachedRota) (past future : List Step) :
    c.run (past ++ future) = (c.run past).run future := List.foldl_append

theorem run_edits (c : CachedRota) (edits : List Edit) :
    c.run (edits.map .apply) = c.applyAll edits := List.foldl_map

theorem exists_edits_of_no_report {steps : List Step} (h : Step.report ∉ steps) :
    ∃ edits : List Edit, steps = edits.map .apply := by
  induction steps with
  | nil => exact ⟨[], rfl⟩
  | cons t steps ih =>
      rw [List.mem_cons, not_or] at h
      obtain ⟨edits, rfl⟩ := ih h.2
      cases t with
      | apply e => exact ⟨e :: edits, rfl⟩
      | report => exact absurd rfl h.1

/-! ## Reports -/

theorem staleDays_keep (hstale : d ∈ c.staleDays) (report : Report) (n : Nat) :
    ({ c with reports := c.reports.set d (some report), revalidated := n }.staleDays).length + 1 =
      c.staleDays.length := by
  have hnodup : c.staleDays.Nodup := Weekday.nodup_all.filter _
  have hkept : { c with reports := c.reports.set d (some report), revalidated := n }.staleDays =
      c.staleDays.erase d := by
    rw [hnodup.erase_eq_filter]
    unfold staleDays
    rw [List.filter_filter]
    apply List.filter_congr
    intro e _
    dsimp only
    rw [ByDay.get_set]
    by_cases he : e = d
    · simp [he]
    · simp [he]
  rw [hkept, List.length_erase_of_mem hstale]
  have := List.length_pos_of_mem hstale
  omega

/-- A refresh takes from the stale days as many as it validates. -/
theorem refresh_count (c : CachedRota) (ds : List Weekday) :
    (c.refresh ds).1.revalidated + (c.refresh ds).1.staleDays.length =
      c.revalidated + c.staleDays.length := by
  induction ds generalizing c with
  | nil => rfl
  | cons d ds ih =>
      unfold refresh
      cases hreport : c.reports.get d with
      | some report => exact ih c
      | none =>
          cases hvalidate : c.validateBookings (c.days.get d) with
          | error fault => rfl
          | ok report =>
              have hkept := staleDays_keep (mem_staleDays.mpr hreport) report (c.revalidated + 1)
              have hrest := ih { c with
                reports := c.reports.set d (some report), revalidated := c.revalidated + 1 }
              dsimp only [Option.isSome_none] at hrest ⊢
              rw [if_neg (by decide), hrest]
              omega

theorem refresh_of_fresh {ds : List Weekday} (hfresh : ∀ d ∈ ds, (c.reports.get d).isSome) :
    c.refresh ds = (c, none) := by
  induction ds with
  | nil => rfl
  | cons d ds ih =>
      unfold refresh
      rw [if_pos (hfresh d (by simp))]
      exact ih fun e he => hfresh e (List.mem_cons_of_mem d he)

theorem report_of_refresh {c' : CachedRota} {rest : Report}
    (hrefresh : c.refresh Weekday.all = (c', none))
    (hvalidate : c'.validateBookings c'.undated = .ok rest) :
    c.report = (c', .ok (.merge (Weekday.all.filterMap c'.reports.get ++ [rest]))) := by
  unfold report
  rw [hrefresh]
  dsimp only
  rw [hvalidate]

/-- A report that is given ends with a faultless refresh of the week. -/
theorem refresh_of_succeeds (h : Succeeds c.report.2) :
    c.refresh Weekday.all = (c.report.1, none) ∧
      Succeeds (c.report.1.validateBookings c.report.1.undated) := by
  unfold report at h ⊢
  cases hrefresh : c.refresh Weekday.all with
  | mk c' fault? =>
      rw [hrefresh] at h
      cases fault? with
      | some fault => exact absurd h (not_succeeds_error fault)
      | none =>
          dsimp only at h ⊢
          cases hvalidate : c'.validateBookings c'.undated with
          | error fault =>
              rw [hvalidate] at h
              exact absurd h (not_succeeds_error fault)
          | ok rest => exact ⟨rfl, rest, hvalidate⟩

theorem Mirrors.fresh_of_report (h : Mirrors rules policy c r) (hreport : Succeeds c.report.2)
    (d : Weekday) : (c.report.1.reports.get d).isSome := by
  have hrefreshed := h.refresh Weekday.all
  rw [(refresh_of_succeeds hreport).1] at hrefreshed
  exact hrefreshed.done rfl d (Weekday.mem_all d)

theorem Mirrors.staleDays_report (h : Mirrors rules policy c r) (hreport : Succeeds c.report.2) :
    c.report.1.staleDays = [] := by
  unfold staleDays
  rw [List.filter_eq_nil_iff]
  intro d _
  simpa [Option.isSome_iff_ne_none] using h.fresh_of_report hreport d

/-- A second report finds nothing to do. -/
theorem Mirrors.report_report (h : Mirrors rules policy c r) (hreport : Succeeds c.report.2) :
    c.report.1.report = c.report := by
  obtain ⟨hrefresh, rest, hvalidate⟩ := refresh_of_succeeds hreport
  have hagain : c.report.1.refresh Weekday.all = (c.report.1, none) :=
    refresh_of_fresh fun d _ => h.fresh_of_report hreport d
  rw [report_of_refresh hagain hvalidate, ← report_of_refresh hrefresh hvalidate]

theorem value_metrics (c : CachedRota) : c.metrics.value .daysRevalidated = c.revalidated := by
  unfold metrics
  split
  · next hzero =>
      rw [hzero]
      rfl
  · rw [Metrics.value_add, if_pos rfl]
    exact Nat.zero_add c.revalidated

theorem Mirrors.value_metrics_report (h : Mirrors rules policy c r)
    (hreport : Succeeds c.report.2) :
    c.report.1.metrics.value .daysRevalidated =
      c.metrics.value .daysRevalidated + c.staleDays.length := by
  have hcount := refresh_count c Weekday.all
  rw [(refresh_of_succeeds hreport).1] at hcount
  dsimp only at hcount
  rw [h.staleDays_report hreport] at hcount
  rw [value_metrics, value_metrics]
  exact hcount

/-! ## Runs -/

/-- At every moment of a run the stale days are all days, as long as nothing has been reported, and
since a report those that some edit has touched at its time.  A report validates just these, and one
that follows it directly repeats it. -/
theorem staleDays_exact (hbegin : Begins rules policy c r) (steps : List Step) :
    let now := c.run steps
    (Step.report ∉ steps → now.staleDays = Weekday.all) ∧
      (∀ past edits, steps = past ++ .report :: edits.map .apply →
        Succeeds (c.run past).report.2 →
        now.staleDays.Sublist Weekday.all ∧
          ∀ d, d ∈ now.staleDays ↔ (r.applyAll (past.filterMap Step.edit?)).Touched edits d) ∧
      (Succeeds now.report.2 →
        now.report.1.staleDays = [] ∧
          now.report.1.metrics.value .daysRevalidated =
            now.metrics.value .daysRevalidated + now.staleDays.length ∧
          now.report.1.report = now.report) ∧
      (rules.Accepted → (r.applyAll (steps.filterMap Step.edit?)).shiftCount < capacity 32 →
        Succeeds now.report.2) := by
  intro now
  have hmirrors : Mirrors rules policy now _ := hbegin.mirrors.run steps
  refine ⟨?_, ?_, ?_, hmirrors.succeeds_report⟩
  · intro hnone
    obtain ⟨edits, rfl⟩ := exists_edits_of_no_report hnone
    apply staleDays_eq_all
    intro d
    have hstale := (hbegin.mirrors.mem_staleDays_applyAll (d := d) edits).mpr
      (Or.inl (mem_staleDays.mpr (hbegin.reports d)))
    rw [← run_edits] at hstale
    exact mem_staleDays.mp hstale
  · rintro past edits rfl hreport
    have hpast := hbegin.mirrors.run past
    have hnow : now = (c.run past).report.1.applyAll edits := by
      rw [← run_edits]
      exact run_append c past _
    refine ⟨List.filter_sublist, ?_⟩
    intro d
    rw [hnow, hpast.afterReport.mem_staleDays_applyAll, hpast.staleDays_report hreport]
    simp
  · intro hreport
    exact ⟨hmirrors.staleDays_report hreport, hmirrors.value_metrics_report hreport,
      hmirrors.report_report hreport⟩

/-- A booking moves from Monday to Wednesday and a shift that nobody knows is removed.  The member
who is then registered is booked on Wednesday and on no day of the week. -/
theorem staleDays_exact_moved_booking :
    let rules : Rules := ⟨3, 4, 8⟩
    let past : List Step := [.apply (.shiftAdded ⟨.ofNat 10, .ofNat 1, 1, 480, 720⟩),
      .apply (.shiftAdded ⟨.ofNat 11, .ofNat 1, 8, 480, 720⟩)]
    let edits : List Edit := [.shiftUpdated ⟨.ofNat 10, .ofNat 1, 3, 480, 720⟩,
      .shiftRemoved (.ofNat 99), .memberRegistered (.ofNat 1) ⟨.ofNat 9, .staff⟩]
    let before := (empty rules .perBand).run past
    let now := (empty rules .perBand).run (past ++ .report :: edits.map .apply)
    before.staleDays = Weekday.all ∧ Succeeds before.report.2 ∧
      before.report.1.report = before.report ∧ now.staleDays = [.monday, .wednesday] ∧
      ∀ d, d ∈ now.staleDays ↔
        (Rota.empty.applyAll (past.filterMap Step.edit?)).Touched edits d := by
  intro rules past edits before now
  have hrules : rules.Accepted := Rules.accepted_standard
  have hbegin : Begins rules .perBand (empty rules .perBand) .empty := .empty
  obtain ⟨hall, -, hagain, hsucceeds⟩ := staleDays_exact hbegin past
  have hreport : Succeeds before.report.2 := hsucceeds hrules (by decide +kernel)
  obtain ⟨-, hsince, -⟩ := staleDays_exact hbegin (past ++ .report :: edits.map .apply)
  refine ⟨hall ?_, hreport, (hagain hreport).2.2, ?_, (hsince past edits rfl hreport).2⟩
  · simp [past]
  · decide +kernel

end CachedRota

end NurseryRota
