import Mathlib.Order.Bounds.Basic
import NurseryRota.Proofs.DayHeadcounts
import NurseryRota.Proofs.PresenceSpans

/-!
# Shortages are the maximal short windows

A minute is short when fewer staff are there than are needed.  The shortages collected from slices
that lie end to end are the maximal runs of short minutes, each once and in order: a slice that is
short extends the run before it, and one that is not ends it.
-/

namespace NurseryRota

/-- The minutes that an interval covers. -/
def Interval.minutes (i : Interval) : Set Int := {m | i.covers m}

theorem Interval.mem_minutes {i : Interval} {m : Int} :
    m ∈ i.minutes ↔ i.start ≤ m ∧ m < i.stop := covers_iff

namespace Shortage

variable {project : ProjectId} {d : Weekday} {staff need : Int → Nat}

/-- The shortage is about a window of short minutes only, and measures it. -/
structure Measures (project : ProjectId) (d : Weekday) (staff need : Int → Nat) (v : Shortage) :
    Prop where
  project_eq : v.project = project
  day_eq : v.day = d
  window_day : v.window.day = d
  nonempty : v.window.start < v.window.stop
  short : ∀ m, v.window.start ≤ m → m < v.window.stop → staff m < need m
  required : IsGreatest (need '' v.window.minutes) v.required
  actual : IsLeast (staff '' v.window.minutes) v.actual
  shortfall : IsGreatest ((fun m => need m - staff m) '' v.window.minutes) v.shortfall

/-- The shortage measures a run of short minutes that is as long as it can be. -/
structure IsRun (project : ProjectId) (d : Weekday) (staff need : Int → Nat) (v : Shortage) :
    Prop extends Measures project d staff need v where
  before : ¬ staff (v.window.start - 1) < need (v.window.start - 1)
  after : ¬ staff v.window.stop < need v.window.stop

/-- What a slice has to tell of a minute. -/
structure SliceTold (d : Weekday) (staff need : Int → Nat) (s : Slice) (m : Int) : Prop where
  day : s.window.day = d
  staff_eq : s.present.staff = staff m
  need_eq : s.required = need m

section Slices

variable {s : Slice} {p : Shortage}

theorem image_minutes_of_forall {f : Int → Nat} {i : Interval} {n : Nat}
    (hlong : i.start < i.stop) (h : ∀ m, i.start ≤ m → m < i.stop → n = f m) :
    f '' i.minutes = {n} := by
  ext k
  simp only [Set.mem_image, Interval.mem_minutes, Set.mem_singleton_iff]
  constructor
  · rintro ⟨m, ⟨hlo, hhi⟩, rfl⟩
    exact (h m hlo hhi).symm
  · rintro rfl
    exact ⟨i.start, ⟨Int.le_refl _, hlong⟩, (h _ (Int.le_refl _) hlong).symm⟩

theorem measures_ofSlice (hlong : s.window.start < s.window.stop)
    (htold : ∀ m, s.window.start ≤ m → m < s.window.stop → SliceTold d staff need s m)
    (hshort : s.short = true) : Measures project d staff need (ofSlice project s) := by
  have hfirst := htold s.window.start (Int.le_refl _) hlong
  have hless : s.present.staff < s.required := by simpa [Slice.short] using hshort
  constructor
  · rfl
  · exact hfirst.day
  · exact hfirst.day
  · exact hlong
  · intro m hlo hhi
    rw [← (htold m hlo hhi).staff_eq, ← (htold m hlo hhi).need_eq]
    exact hless
  · dsimp only [ofSlice]
    rw [image_minutes_of_forall hlong fun m hlo hhi => (htold m hlo hhi).need_eq]
    exact isGreatest_singleton
  · dsimp only [ofSlice]
    rw [image_minutes_of_forall hlong fun m hlo hhi => (htold m hlo hhi).staff_eq]
    exact isLeast_singleton
  · dsimp only [ofSlice]
    rw [image_minutes_of_forall hlong fun m hlo hhi => by
      rw [← (htold m hlo hhi).need_eq, ← (htold m hlo hhi).staff_eq]]
    exact isGreatest_singleton

/-- Measuring the next slice too measures the longer window. -/
theorem Measures.extend (hp : Measures project d staff need p)
    (hs : Measures project d staff need (ofSlice project s))
    (hmeets : p.window.stop = s.window.start) : Measures project d staff need (p.extend s) := by
  have hlong := hp.nonempty
  have hlongs : s.window.start < s.window.stop := hs.nonempty
  have hunion : (p.extend s).window.minutes = p.window.minutes ∪ s.window.minutes := by
    ext m
    simp only [Set.mem_union, Interval.mem_minutes, Shortage.extend]
    omega
  constructor
  · exact hp.project_eq
  · exact hp.day_eq
  · exact hp.window_day
  · dsimp only [Shortage.extend]
    omega
  · intro m hlo hhi
    by_cases hm : m < p.window.stop
    · exact hp.short m hlo hm
    · exact hs.short m (by dsimp only [ofSlice]; omega) hhi
  · rw [hunion, Set.image_union]
    exact hp.required.union hs.required
  · rw [hunion, Set.image_union]
    exact hp.actual.union hs.actual
  · rw [hunion, Set.image_union]
    exact hp.shortfall.union hs.shortfall

end Slices

/-! ## What has been collected -/

/-- The list holds the runs from a minute on, in order. -/
structure Collects (project : ProjectId) (d : Weekday) (staff need : Int → Nat) (start : Int)
    (vs : List Shortage) : Prop where
  run : ∀ v ∈ vs, IsRun project d staff need v
  begun : ∀ v ∈ vs, start ≤ v.window.start
  ascend : vs.Pairwise fun a b => a.window.stop < b.window.start
  complete : ∀ m, start ≤ m → staff m < need m → ∃ v ∈ vs, v.window.start ≤ m ∧ m < v.window.stop

variable {start next : Int} {vs : List Shortage} {p : Shortage}

theorem Collects.nil (hidle : ∀ m, start ≤ m → ¬ staff m < need m) :
    Collects project d staff need start [] where
  run := by simp
  begun := by simp
  ascend := .nil
  complete m hm hshort := absurd hshort (hidle m hm)

theorem Collects.idle (h : Collects project d staff need next vs) (hnext : start ≤ next)
    (hidle : ∀ m, start ≤ m → m < next → ¬ staff m < need m) :
    Collects project d staff need start vs where
  run := h.run
  begun v hv := Int.le_trans hnext (h.begun v hv)
  ascend := h.ascend
  complete m hm hshort := by
    by_cases hbefore : m < next
    · exact absurd hshort (hidle m hm hbefore)
    · exact h.complete m (by omega) hshort

theorem Collects.cons (h : Collects project d staff need next vs)
    (hp : IsRun project d staff need p) (hgap : p.window.stop < next)
    (hidle : ∀ m, p.window.stop ≤ m → m < next → ¬ staff m < need m) :
    Collects project d staff need p.window.start (p :: vs) := by
  have hlong := hp.nonempty
  constructor
  · simpa [hp] using h.run
  · intro v hv
    rcases List.mem_cons.mp hv with rfl | hv
    · exact Int.le_refl _
    · have := h.begun v hv
      omega
  · refine List.pairwise_cons.mpr ⟨?_, h.ascend⟩
    intro v hv
    exact Int.lt_of_lt_of_le hgap (h.begun v hv)
  · intro m hm hshort
    by_cases hinside : m < p.window.stop
    · exact ⟨p, by simp, hm, hinside⟩
    · by_cases hbefore : m < next
      · exact absurd hshort (hidle m (by omega) hbefore)
      · obtain ⟨v, hv, hcovers⟩ := h.complete m (by omega) hshort
        exact ⟨v, by simp [hv], hcovers⟩

/-- From slices that lie end to end, with nothing short behind them, every run is collected: those
that begin within them, and the one that is open before them. -/
theorem collects {slices : List Slice} {lo hi : Int}
    (htiles : Slice.Tiles (SliceTold d staff need) lo slices hi)
    (hend : ∀ m, hi ≤ m → ¬ staff m < need m) :
    (¬ staff (lo - 1) < need (lo - 1) →
        Collects project d staff need lo (collect project none slices)) ∧
      ∀ p, Measures project d staff need p → p.window.stop = lo →
        ¬ staff (p.window.start - 1) < need (p.window.start - 1) →
          Collects project d staff need p.window.start (collect project (some p) slices) := by
  -- Both parts go by one induction, since a short slice opens a run that the next may extend.
  induction slices generalizing lo with
  | nil =>
      obtain rfl : lo = hi := htiles
      refine ⟨fun _ => .nil hend, ?_⟩
      intro p hp hstop hbefore
      have hrun : IsRun project d staff need p := ⟨hp, hbefore, hend _ (by omega)⟩
      have hlast : Collects project d staff need (lo + 1) [] := .nil fun m hm => hend m (by omega)
      exact hlast.cons hrun (by omega) fun m hm _ => hend m (by omega)
  | cons s rest ih =>
      obtain ⟨rfl, hlong, htold, hrest⟩ := htiles
      obtain ⟨hclosed, hopen⟩ := ih hrest
      cases hshort : s.short with
      | false =>
          have hidle : ∀ m, s.window.start ≤ m → m < s.window.stop → ¬ staff m < need m := by
            intro m hlo hhi
            rw [← (htold m hlo hhi).staff_eq, ← (htold m hlo hhi).need_eq]
            simpa [Slice.short] using hshort
          have hlater := hclosed (hidle _ (by omega) (by omega))
          constructor
          · intro _
            simpa [collect, hshort] using hlater.idle (Int.le_of_lt hlong) hidle
          · intro p hp hstop hbefore
            have hrun : IsRun project d staff need p :=
              ⟨hp, hbefore, hidle _ (by omega) (by omega)⟩
            simpa [collect, hshort] using hlater.cons hrun (by omega) fun m hlo hhi =>
              hidle m (by omega) hhi
      | true =>
          have hs : Measures project d staff need (ofSlice project s) :=
            measures_ofSlice hlong htold hshort
          constructor
          · intro hbefore
            have hopened := hopen _ hs rfl hbefore
            have hcollect : collect project none (s :: rest) =
                collect project (some (ofSlice project s)) rest := by
              simp [collect, hshort]
            rw [hcollect]
            exact hopened
          · intro p hp hstop hbefore
            have hextended := hopen _ (hp.extend hs hstop) rfl hbefore
            have hcollect : collect project (some p) (s :: rest) =
                collect project (some (p.extend s)) rest := by
              simp [collect, hshort, hstop]
            rw [hcollect]
            exact hextended

/-! ## Runs are told apart by their minutes -/

theorem IsRun.isMaximal {v : Shortage} (hv : IsRun project d staff need v) :
    Span.IsMaximal (fun m => staff m < need m) ⟨v.window.start, v.window.stop⟩ :=
  ⟨hv.nonempty, hv.short, hv.before, hv.after⟩

/-- Two runs that share a minute are one. -/
theorem IsRun.eq {v w : Shortage} (hv : IsRun project d staff need v)
    (hw : IsRun project d staff need w) {m : Int} (hmv : v.window.start ≤ m ∧ m < v.window.stop)
    (hmw : w.window.start ≤ m ∧ m < w.window.stop) : v = w := by
  have hday := hv.window_day.trans hw.window_day.symm
  have hspan := hv.isMaximal.eq hw.isMaximal (Span.covers_iff.mpr hmv) (Span.covers_iff.mpr hmw)
  obtain ⟨hstart, hstop⟩ := Span.mk.inj hspan
  have hwindow : v.window = w.window := by
    cases hvw : v.window
    cases hww : w.window
    simp_all
  have hrequired := hv.required
  have hactual := hv.actual
  have hshortfall := hv.shortfall
  rw [hwindow] at hrequired hactual hshortfall
  cases v
  cases w
  simp only [Shortage.mk.injEq]
  exact ⟨hv.project_eq.trans hw.project_eq.symm, hv.day_eq.trans hw.day_eq.symm, hwindow,
    hrequired.unique hw.required, hactual.unique hw.actual, hshortfall.unique hw.shortfall⟩

theorem Collects.mem_iff (h : Collects project d staff need start vs)
    (hidle : ∀ m, m < start → ¬ staff m < need m) {v : Shortage} :
    v ∈ vs ↔ IsRun project d staff need v := by
  constructor
  · exact h.run v
  · intro hv
    have hlong := hv.nonempty
    have hshort := hv.short _ (Int.le_refl _) hlong
    have hstart : start ≤ v.window.start := by
      by_contra hless
      exact hidle _ (by omega) hshort
    obtain ⟨w, hw, hcovers⟩ := h.complete _ hstart hshort
    rw [hv.eq (h.run w hw) ⟨Int.le_refl _, hlong⟩ hcovers]
    exact hw

end Shortage

/-! ## The shortages of a team -/

/-- The headcount of the members that are present in each role. -/
def Headcount.ofPresent (present : Role → Finset MemberId) : Headcount :=
  ⟨(present .staff).card, ⟨(present (.child .underTwo)).card, (present (.child .twoYearOld)).card,
    (present (.child .threePlus)).card⟩⟩

theorem Headcount.eq_ofPresent {h : Headcount} {present : Role → Finset MemberId}
    (hcount : ∀ r, h.count r = (present r).card) : h = .ofPresent present := by
  obtain ⟨staff, children⟩ := h
  have hstaff := hcount .staff
  have hchildren := fun b => hcount (.child b)
  simp only [count] at hstaff hchildren
  unfold ofPresent
  rw [hstaff, Headcount.mk.injEq]
  refine ⟨rfl, ?_⟩
  ext b
  rw [hchildren b]
  cases b <;> rfl

theorem Headcount.ofPresent_empty {present : Role → Finset MemberId}
    (hempty : ∀ r, present r = ∅) : ofPresent present = nobody := by
  simp [ofPresent, hempty, nobody]

namespace Rules

variable {rules : Rules} {policy : Policy}

/-- The staff that the children of a headcount need, where the rules say it. -/
def need (rules : Rules) (policy : Policy) (h : Headcount) : Nat :=
  match rules.staffNeeded policy h.children with
  | .ok n => n
  | .error _ => 0

theorem need_eq_of_staffNeeded {h : Headcount} {n : Nat}
    (hneeded : rules.staffNeeded policy h.children = .ok n) : rules.need policy h = n := by
  unfold need
  rw [hneeded]

theorem need_nobody (hrules : rules.Accepted) : rules.need policy .nobody = 0 :=
  need_eq_of_staffNeeded (staffNeeded_nobody hrules policy)

end Rules

namespace Team

variable {t : Team} {d : Weekday} {rules : Rules} {policy : Policy}

def headcount (t : Team) (d : Weekday) (minute : Int) : Headcount :=
  .ofPresent fun r => t.present d r minute

/-- A slice of a day's coverage tells the headcounts of its minutes, and what they need. -/
theorem SliceTold.shortage_sliceTold {s : Slice} {minute : Int}
    (h : t.SliceTold d rules policy s minute) :
    Shortage.SliceTold d (fun m => (t.headcount d m).staff)
      (fun m => rules.need policy (t.headcount d m)) s minute := by
  have hcount : s.present = t.headcount d minute := Headcount.eq_ofPresent h.count
  constructor
  · exact h.day
  · rw [hcount]
  · rw [← hcount, Rules.need_eq_of_staffNeeded h.need]

/-- The shortages of a team's day are the maximal runs of minutes at which it has fewer staff than
its children need. -/
theorem collects_shortagesOn (project : ProjectId) (hrules : rules.Accepted) (policy : Policy)
    (d : Weekday) (hvalid : ∀ s ∈ t.stays, s.interval.Valid)
    (hsize : t.stays.length < capacity 32) :
    ∃ start, Shortage.Collects project d (fun m => (t.headcount d m).staff)
        (fun m => rules.need policy (t.headcount d m)) start
        (t.shortagesOn project rules policy d) ∧
      ∀ m, m < start → ¬ (t.headcount d m).staff < rules.need policy (t.headcount d m) := by
  obtain ⟨slices, hslices⟩ := coverage_succeeds hrules policy d hvalid hsize
  obtain ⟨lo, hi, htiles, houtside⟩ := coverage_tiles hvalid hslices
  have hidle : ∀ m, (m < lo ∨ hi ≤ m) →
      ¬ (t.headcount d m).staff < rules.need policy (t.headcount d m) := by
    intro m hm
    have hnobody : t.headcount d m = .nobody := Headcount.ofPresent_empty (houtside m hm)
    rw [hnobody, Rules.need_nobody hrules]
    exact Nat.not_lt_zero _
  refine ⟨lo, ?_, fun m hm => hidle m (Or.inl hm)⟩
  rw [shortagesOn_of_coverage hslices]
  exact (Shortage.collects (htiles.imp fun _ _ => SliceTold.shortage_sliceTold)
    fun m hm => hidle m (Or.inr hm)).1 (hidle _ (Or.inl (by omega)))

end Team

end NurseryRota
