import NurseryRota.Proofs.CachedWeek
import NurseryRota.Proofs.Faultless

/-!
# Runs of a cached rota

A cached rota begins with nothing or with a snapshot, and then takes edits and is asked for
reports in any order.  It mirrors at every moment the rota that begins alike and takes the edits
alone, so each of its reports is the report of a full validation of that rota.
-/

namespace NurseryRota.CachedRota

inductive Step
  | apply (e : Edit)
  | report

def Step.edit? : Step → Option Edit
  | apply e => some e
  | report => none

/-- The cached rota after a step; what a report says is read off `CachedRota.report`. -/
def step (c : CachedRota) : Step → CachedRota
  | .apply e => c.apply e
  | .report => c.report.1

def run (c : CachedRota) (steps : List Step) : CachedRota := steps.foldl step c

/-- A cached rota and the rota that begins with the same bookings and the same roster. -/
inductive Begins (rules : Rules) (policy : Policy) : CachedRota → Rota → Prop
  | empty : Begins rules policy (.empty rules policy) .empty
  | ofSnapshot (s : Snapshot) (roster : Roster) (distinct : s.Distinct) :
      Begins rules policy (.ofSnapshot s roster rules policy) (.ofSnapshot s roster)

variable {rules : Rules} {policy : Policy} {c : CachedRota} {r : Rota}

theorem Begins.mirrors (h : Begins rules policy c r) : Mirrors rules policy c r := by
  cases h with
  | empty => exact mirrors_empty rules policy ∅
  | ofSnapshot s roster distinct => exact mirrors_ofSnapshot distinct roster rules policy

theorem Mirrors.step (h : Mirrors rules policy c r) (t : Step) :
    Mirrors rules policy (c.step t) (r.applyAll t.edit?.toList) := by
  cases t with
  | apply e => exact h.apply e
  | report => exact h.afterReport

theorem Mirrors.run (h : Mirrors rules policy c r) (steps : List Step) :
    Mirrors rules policy (c.run steps) (r.applyAll (steps.filterMap Step.edit?)) := by
  induction steps generalizing c r with
  | nil => exact h
  | cons t steps ih =>
      have htail := ih (h.step t)
      rw [← Rota.applyAll_append] at htail
      cases t with
      | apply e => exact htail
      | report => exact htail

theorem Mirrors.succeeds_report (h : Mirrors rules policy c r) (hrules : rules.Accepted)
    (hsize : r.shiftCount < capacity 32) : Succeeds c.report.2 := by
  have hview : (r.view .all).shifts.size < capacity 32 := by
    change (Snapshot.ofBookings r.shifts.values).size < capacity 32
    rw [Snapshot.size_ofBookings]
    simpa [Rota.shiftCount, Table.size, Table.values] using hsize
  have hcheck : (r.view .all).shifts.Checkable r.roster rules policy :=
    Snapshot.checkable_of_accepted hrules policy hview
  have hreport := h.toOption_report
  rw [Snapshot.validate_eq_ok hcheck] at hreport
  cases hresult : c.report.2 with
  | error fault =>
      rw [hresult] at hreport
      cases hreport
  | ok report => exact succeeds_ok report

/-- After every run a cached rota agrees with the rota that took the same edits: in the number
of shifts, in the roster, and in the report, which it gives exactly when full validation does. -/
theorem run_refines (hrules : rules.Accepted) (hbegin : Begins rules policy c r)
    (steps : List Step) :
    let cached := c.run steps
    let rota := r.applyAll (steps.filterMap Step.edit?)
    cached.shiftCount = rota.shiftCount ∧ cached.roster = rota.roster ∧
      (∀ report, cached.report.2 = .ok report ↔
        (rota.view .all).shifts.validate rota.roster rules policy = .ok report) ∧
      (rota.shiftCount < capacity 32 → Succeeds cached.report.2) := by
  intro cached rota
  have hmirror : Mirrors rules policy cached rota := hbegin.mirrors.run steps
  refine ⟨?_, hmirror.roster, ?_, hmirror.succeeds_report hrules⟩
  · unfold shiftCount Rota.shiftCount
    rw [hmirror.bookings]
  · intro report
    rw [eq_ok_iff_toOption, eq_ok_iff_toOption, hmirror.toOption_report]

/-- A booking moves to another day and its member is enrolled, with reports before, between and
after. -/
theorem run_refines_moved_booking :
    let rules : Rules := ⟨3, 4, 8⟩
    let s : Snapshot := ⟨[⟨.ofNat 1, .ofNat 7, 0, 480, 720⟩, ⟨.ofNat 2, .ofNat 7, 9, 480, 720⟩],
      by decide⟩
    let steps : List Step := [.report, .apply (.shiftUpdated ⟨.ofNat 2, .ofNat 7, 4, 540, 600⟩),
      .report, .apply (.memberRegistered (.ofNat 7) ⟨.ofNat 3, .child .twoYearOld⟩)]
    let cached := (ofSnapshot s ∅ rules .pooled).run steps
    let rota := (Rota.ofSnapshot s ∅).applyAll (steps.filterMap Step.edit?)
    cached.shiftCount = rota.shiftCount ∧ cached.roster = rota.roster ∧
      (∀ report, cached.report.2 = .ok report ↔
        (rota.view .all).shifts.validate rota.roster rules .pooled = .ok report) ∧
      (rota.shiftCount < capacity 32 → Succeeds cached.report.2) :=
  run_refines (by intro b; cases b <;> decide) (.ofSnapshot _ _ (show List.Nodup _ by decide)) _

end NurseryRota.CachedRota
