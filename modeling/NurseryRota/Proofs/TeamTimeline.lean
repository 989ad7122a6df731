import NurseryRota.Proofs.TeamShortages

/-!
# The timeline of a team by its own intervals

The slices of a day lie end to end from the first start of an interval of the day to the last stop,
and are cut exactly where a member's presence in a role begins or ends.  Merging is what makes the
sweep exact: an interval that overlaps or touches another one of its member cuts nothing, and no
minute of a member is counted twice.
-/

namespace NurseryRota

namespace Slice

variable {told : Slice → Int → Prop} {slices : List Slice} {lo hi : Int}

theorem Tiles.isChain (h : Tiles told lo slices hi) :
    slices.IsChain fun a b => a.window.stop = b.window.start := by
  induction slices generalizing lo with
  | nil => exact .nil
  | cons s rest ih =>
      obtain ⟨-, -, -, hrest⟩ := h
      cases rest with
      | nil => exact .singleton s
      | cons next rest => exact .cons_cons hrest.1.symm (ih hrest)

theorem Tiles.start_of_head (h : Tiles told lo slices hi) :
    ∀ s ∈ slices.head?, s.window.start = lo := by
  cases slices with
  | nil => simp
  | cons s rest =>
      rintro u ⟨⟩
      exact h.1

theorem Tiles.stop_of_getLast (h : Tiles told lo slices hi) :
    ∀ s ∈ slices.getLast?, s.window.stop = hi := by
  induction slices generalizing lo with
  | nil => simp
  | cons s rest ih =>
      obtain ⟨-, -, -, hrest⟩ := h
      cases rest with
      | nil =>
          rintro u ⟨⟩
          exact hrest
      | cons next rest =>
          rw [List.getLast?_cons_cons]
          exact ih hrest

end Slice

/-- The slices of two or more minutes of change are cut at these minutes. -/
theorem cut_slicesFrom_iff {rules : Rules} {policy : Policy} {d : Weekday} {before : Headcount}
    {g next : Int × List Change} {groups : List (Int × List Change)} {slices : List Slice}
    (hslices : slicesFrom rules policy d before (g :: next :: groups) = .ok slices) (minute : Int) :
    (∃ s ∈ slices, minute = s.window.start ∨ minute = s.window.stop) ↔
      ∃ k ∈ g :: next :: groups, minute = k.1 := by
  induction groups generalizing before g next slices with
  | nil =>
      obtain ⟨present, need, tail, -, -, -, htail, rfl⟩ :=
        slicesFrom_cons_cons_eq_ok_iff.mp hslices
      rw [(slicesFrom_singleton_eq_ok_iff.mp htail).1]
      simp
  | cons later groups ih =>
      obtain ⟨present, need, tail, -, -, -, htail, rfl⟩ :=
        slicesFrom_cons_cons_eq_ok_iff.mp hslices
      rw [List.exists_mem_cons_iff, ih htail]
      simp only [List.exists_mem_cons_iff]
      constructor
      · rintro ((h | h) | h)
        · exact Or.inl h
        · exact Or.inr (Or.inl h)
        · exact Or.inr h
      · rintro (h | h)
        · exact Or.inl (Or.inl h)
        · exact Or.inr h

namespace Team

variable {t : Team} {d : Weekday} {rules : Rules} {policy : Policy}

/-- The minutes at which intervals of the day start. -/
def starts (t : Team) (d : Weekday) : Set Int :=
  {minute | ∃ stay ∈ t.stays, stay.interval.day = d ∧ stay.interval.start = minute}

/-- The minutes at which intervals of the day stop. -/
def stops (t : Team) (d : Weekday) : Set Int :=
  {minute | ∃ stay ∈ t.stays, stay.interval.day = d ∧ stay.interval.stop = minute}

/-- At the minute a presence of a member in a role begins or ends. -/
def Turns (t : Team) (d : Weekday) (minute : Int) : Prop :=
  ∃ m r span, Span.IsMaximal (fun minute => m ∈ t.present d r minute) span ∧
    (minute = span.start ∨ minute = span.stop)

/-- A presence begins or ends exactly where it changes who is there. -/
theorem turns_iff (hvalid : ∀ s ∈ t.stays, s.interval.Valid) {minute : Int} :
    t.Turns d minute ↔ ∃ r, t.present d r (minute - 1) ≠ t.present d r minute := by
  constructor
  · rintro ⟨m, r, span, hspan, hminute⟩
    refine ⟨r, fun hsame => ?_⟩
    have hlong := hspan.nonempty
    rcases hminute with rfl | rfl
    · apply hspan.before
      rw [hsame]
      exact hspan.throughout span.start (Int.le_refl _) hlong
    · apply hspan.after
      rw [← hsame]
      exact hspan.throughout (span.stop - 1) (by omega) (by omega)
  · rintro ⟨r, hdiffer⟩
    obtain ⟨m, hm⟩ := not_forall.mp (mt Finset.ext hdiffer)
    by_cases hthere : m ∈ t.present d r minute
    · have habsent : m ∉ t.present d r (minute - 1) := fun h => hm (iff_of_true h hthere)
      obtain ⟨span, hspan, hcovers⟩ := exists_isMaximal hvalid hthere
      rw [Span.covers_iff] at hcovers
      refine ⟨m, r, span, hspan, Or.inl ?_⟩
      by_contra hne
      exact habsent (hspan.throughout (minute - 1) (by omega) (by omega))
    · have hbefore : m ∈ t.present d r (minute - 1) := by
        by_contra habsent
        exact hm (iff_of_false habsent hthere)
      obtain ⟨span, hspan, hcovers⟩ := exists_isMaximal hvalid hbefore
      rw [Span.covers_iff] at hcovers
      refine ⟨m, r, span, hspan, Or.inr ?_⟩
      by_contra hne
      exact hthere (hspan.throughout minute (by omega) (by omega))

section Bounds

variable {lo hi : Int}

theorem member_present {stay : Stay} (hstay : stay ∈ t.stays) (hday : stay.interval.day = d)
    {minute : Int} (hstart : stay.interval.start ≤ minute) (hstop : minute < stay.interval.stop) :
    stay.member ∈ t.present d stay.role minute :=
  mem_present.mpr ⟨stay, hstay, rfl, rfl, hday, Interval.covers_iff.mpr ⟨hstart, hstop⟩⟩

theorem exists_stay_of_present_ne_empty {r : Role} {minute : Int}
    (h : t.present d r minute ≠ ∅) : ∃ stay ∈ t.stays, stay.interval.day = d ∧
      stay.interval.start ≤ minute ∧ minute < stay.interval.stop := by
  obtain ⟨m, hm⟩ := Finset.nonempty_iff_ne_empty.mpr h
  obtain ⟨stay, hstay, -, -, hday, hcovers⟩ := mem_present.mp hm
  exact ⟨stay, hstay, hday, Interval.covers_iff.mp hcovers⟩

theorem isLeast_starts (hvalid : ∀ s ∈ t.stays, s.interval.Valid) (hturns : t.Turns d lo)
    (hnobody : ∀ minute, minute < lo → ∀ r, t.present d r minute = ∅) :
    IsLeast (t.starts d) lo := by
  have hlower : ∀ stay ∈ t.stays, stay.interval.day = d → lo ≤ stay.interval.start := by
    intro stay hstay hday
    by_contra hearlier
    have hlong := (hvalid stay hstay).start_lt_stop
    have hthere := member_present hstay hday (Int.le_refl _) hlong
    rw [hnobody stay.interval.start (by omega)] at hthere
    exact Finset.notMem_empty _ hthere
  constructor
  · obtain ⟨r, hdiffer⟩ := (turns_iff hvalid).mp hturns
    rw [hnobody (lo - 1) (by omega)] at hdiffer
    obtain ⟨stay, hstay, hday, hstart, -⟩ := exists_stay_of_present_ne_empty hdiffer.symm
    exact ⟨stay, hstay, hday, Int.le_antisymm hstart (hlower stay hstay hday)⟩
  · rintro minute ⟨stay, hstay, hday, rfl⟩
    exact hlower stay hstay hday

theorem isGreatest_stops (hvalid : ∀ s ∈ t.stays, s.interval.Valid) (hturns : t.Turns d hi)
    (hnobody : ∀ minute, hi ≤ minute → ∀ r, t.present d r minute = ∅) :
    IsGreatest (t.stops d) hi := by
  have hupper : ∀ stay ∈ t.stays, stay.interval.day = d → stay.interval.stop ≤ hi := by
    intro stay hstay hday
    by_contra hlater
    have hlong := (hvalid stay hstay).start_lt_stop
    have hthere := member_present hstay hday (Int.le_sub_one_of_lt hlong) (by omega)
    rw [hnobody (stay.interval.stop - 1) (by omega)] at hthere
    exact Finset.notMem_empty _ hthere
  constructor
  · obtain ⟨r, hdiffer⟩ := (turns_iff hvalid).mp hturns
    rw [hnobody hi (Int.le_refl _)] at hdiffer
    obtain ⟨stay, hstay, hday, -, hstop⟩ := exists_stay_of_present_ne_empty hdiffer
    have hle := hupper stay hstay hday
    exact ⟨stay, hstay, hday, by omega⟩
  · rintro minute ⟨stay, hstay, hday, rfl⟩
    exact hupper stay hstay hday

end Bounds

theorem exists_mem_changes_iff_turns (hvalid : ∀ s ∈ t.stays, s.interval.Valid) {minute : Int} :
    (∃ g ∈ t.changes d, minute = g.1) ↔ t.Turns d minute := by
  rw [exists_mem_changes_iff]
  constructor
  · rintro ⟨s, hs, hminute⟩
    obtain ⟨m, hspan⟩ := (mem_spans_iff hvalid).mp hs
    exact ⟨m, s.1, s.2, hspan, hminute⟩
  · rintro ⟨m, r, span, hspan, hminute⟩
    exact ⟨(r, span), (mem_spans_iff hvalid).mpr ⟨m, hspan⟩, hminute⟩

/-- A span has two ends, so a day of changes has two minutes of change. -/
theorem changes_ne_singleton (hvalid : ∀ s ∈ t.stays, s.interval.Valid)
    (g : Int × List Change) : t.changes d ≠ [g] := by
  intro hchanges
  obtain ⟨s, hs, -⟩ := exists_mem_changes_iff (t := t) (d := d).mp ⟨g, by simp [hchanges], rfl⟩
  obtain ⟨k, hk, hstart⟩ := exists_mem_changes_iff.mpr ⟨s, hs, Or.inl rfl⟩
  obtain ⟨l, hl, hstop⟩ := exists_mem_changes_iff.mpr ⟨s, hs, Or.inr rfl⟩
  have hlong := (fits_of_mem_spans d hvalid s hs).2.1
  rw [hchanges, List.mem_singleton] at hk hl
  subst hk hl
  omega

theorem cut_coverage_iff (hvalid : ∀ s ∈ t.stays, s.interval.Valid) {slices : List Slice}
    (hslices : t.coverage rules policy d = .ok slices) (minute : Int) :
    (∃ s ∈ slices, minute = s.window.start ∨ minute = s.window.stop) ↔ t.Turns d minute := by
  rw [← exists_mem_changes_iff_turns hvalid]
  unfold coverage at hslices
  match hchanges : t.changes d with
  | [] =>
      rw [hchanges] at hslices
      cases hslices
      simp
  | [g] => exact absurd hchanges (changes_ne_singleton hvalid g)
  | g :: next :: groups =>
      rw [hchanges] at hslices
      exact cut_slicesFrom_iff hslices minute

/-- Whoever leaves has been counted: before a departure the headcount of its role is above zero. -/
theorem count_pos_of_leaves (hvalid : ∀ s ∈ t.stays, s.interval.Valid)
    (hsize : t.stays.length < capacity 32) {p : List Change} {c : Change}
    (hp : p ++ [c] <+: (t.changes d).flatMap Prod.snd) (hleaves : c.arrives = false) :
    ∃ h, p.foldlM Change.apply .nobody = .ok h ∧ 0 < h.count c.role := by
  have hbalanced := balanced_changes d hvalid
  have harrivals := arrivals_changes_le t d
  obtain ⟨rest, hrest⟩ := hp
  rw [← hrest] at hbalanced harrivals
  rw [Change.arrivals_append, Change.arrivals_append] at harrivals
  have hnobody : Headcount.nobody.everybody = 0 := rfl
  obtain ⟨h, hfold, hleads⟩ := Change.exists_foldlM_apply hbalanced.left.left (by omega)
  exact ⟨h, hfold, (hbalanced.left.right hleads).count_pos hleaves⟩

theorem slices_eq_nil_iff (hvalid : ∀ s ∈ t.stays, s.interval.Valid) {slices : List Slice}
    (hslices : t.coverage rules policy d = .ok slices) :
    slices = [] ↔ ∀ stay ∈ t.stays, stay.interval.day ≠ d := by
  constructor
  · rintro rfl stay hstay hday
    obtain ⟨lo, hi, htiles, hnobody⟩ := coverage_tiles hvalid hslices
    have hlohi : lo = hi := htiles
    have hthere := member_present hstay hday (Int.le_refl _) (hvalid stay hstay).start_lt_stop
    rw [hnobody stay.interval.start (by omega)] at hthere
    simp at hthere
  · intro hnone
    by_contra hne
    obtain ⟨s, hs⟩ := List.exists_mem_of_ne_nil _ hne
    obtain ⟨m, r, span, hspan, -⟩ := (cut_coverage_iff hvalid hslices _).mp ⟨s, hs, Or.inl rfl⟩
    obtain ⟨stay, hstay, -, -, hday, -⟩ :=
      mem_present.mp (hspan.throughout span.start (Int.le_refl _) hspan.nonempty)
    exact hnone stay hstay hday

/-- Under accepted rules the coverage of a day is its exact headcount timeline: slices that lie end
to end between the first start and the last stop of the day, cut where presences begin or end, each
with the members there at all of its minutes and the staff that these children need.  Counting
never takes a member away from a role that has none. -/
theorem coverage_exact (hrules : rules.Accepted) (policy : Policy) (d : Weekday)
    (hstaff : ∀ s ∈ t.staff, s.interval.Valid)
    (hchildren : ∀ a ∈ t.children, a.shift.interval.Valid)
    (hsize : t.staff.length + t.children.length < capacity 32) :
    ∃ slices, t.coverage rules policy d = .ok slices ∧
      (slices = [] ↔ ∀ stay ∈ t.stays, stay.interval.day ≠ d) ∧
      (∀ s ∈ slices, s.window.day = d ∧ s.window.start < s.window.stop) ∧
      (slices.IsChain fun a b => a.window.stop = b.window.start) ∧
      (∀ s ∈ slices.head?, IsLeast (t.starts d) s.window.start) ∧
      (∀ s ∈ slices.getLast?, IsGreatest (t.stops d) s.window.stop) ∧
      (∀ minute, (∃ s ∈ slices, minute = s.window.start ∨ minute = s.window.stop) ↔
        t.Turns d minute) ∧
      (∀ s ∈ slices, ∀ minute, s.window.covers minute →
        s.present = ⟨t.staffAt d minute, t.childrenAt d minute⟩ ∧
          rules.staffNeeded policy s.present.children = .ok s.required) ∧
      ∀ p c, p ++ [c] <+: (t.changes d).flatMap Prod.snd → c.arrives = false →
        ∃ h, p.foldlM Change.apply .nobody = .ok h ∧ 0 < h.count c.role := by
  have hvalid := valid_stays hstaff hchildren
  have hstays : t.stays.length < capacity 32 := by rwa [length_stays]
  obtain ⟨slices, hslices⟩ := coverage_succeeds hrules policy d hvalid hstays
  obtain ⟨lo, hi, htiles, hnobody⟩ := coverage_tiles hvalid hslices
  have hcuts := cut_coverage_iff hvalid hslices
  refine ⟨slices, hslices, slices_eq_nil_iff hvalid hslices, ?_, htiles.isChain, ?_, ?_, hcuts, ?_,
    fun p c hp hleaves => count_pos_of_leaves hvalid hstays hp hleaves⟩
  · intro s hs
    obtain ⟨hlong, htold⟩ := htiles.of_mem s hs
    exact ⟨(htold s.window.start (Int.le_refl _) hlong).day, hlong⟩
  · intro s hs
    have hturns := (hcuts _).mp ⟨s, List.mem_of_mem_head? hs, Or.inl rfl⟩
    rw [htiles.start_of_head s hs] at hturns ⊢
    exact isLeast_starts hvalid hturns fun minute hminute => hnobody minute (Or.inl hminute)
  · intro s hs
    have hturns := (hcuts _).mp ⟨s, List.mem_of_getLast? hs, Or.inr rfl⟩
    rw [htiles.stop_of_getLast s hs] at hturns ⊢
    exact isGreatest_stops hvalid hturns fun minute hminute => hnobody minute (Or.inr hminute)
  · intro s hs minute hcovers
    obtain ⟨hstart, hstop⟩ := Interval.covers_iff.mp hcovers
    have htold := (htiles.of_mem s hs).2 minute hstart hstop
    exact ⟨(Headcount.eq_ofPresent htold.count).trans headcount_eq, htold.need⟩

/-- Two touching intervals of one member of staff make one presence, so their common minute cuts no
slice; a handover does, and counts one member of staff. -/
theorem coverage_exact_at_handover :
    let t : Team := ⟨[⟨.ofNat 1, .ofNat 7, ⟨.monday, 480, 600⟩⟩,
      ⟨.ofNat 2, .ofNat 7, ⟨.monday, 600, 720⟩⟩, ⟨.ofNat 3, .ofNat 9, ⟨.monday, 720, 900⟩⟩],
      [⟨⟨.ofNat 4, .ofNat 8, ⟨.monday, 500, 900⟩⟩, .underTwo⟩]⟩
    ∃ slices, t.coverage ⟨3, 4, 8⟩ .pooled .monday = .ok slices ∧
      (¬ ∃ s ∈ slices, 600 = s.window.start ∨ 600 = s.window.stop) ∧
      (∃ s ∈ slices, 720 = s.window.start ∨ 720 = s.window.stop) ∧
      ∀ s ∈ slices, s.window.covers 720 → s.present = ⟨1, 1, 0, 0⟩ := by
  intro t
  have hrules : Rules.Accepted ⟨3, 4, 8⟩ := by
    intro b
    cases b <;> decide
  obtain ⟨slices, hslices, -, -, -, -, -, hcuts, htold, -⟩ := coverage_exact (t := t) hrules
    .pooled .monday (by decide) (by decide) (by decide)
  have hvalid := valid_stays (t := t) (by decide) (by decide)
  refine ⟨slices, hslices, ?_, ?_, ?_⟩
  · rw [hcuts, turns_iff hvalid]
    rintro ⟨r, hdiffer⟩
    apply hdiffer
    cases r with
    | staff => decide +kernel
    | child b => cases b <;> decide +kernel
  · rw [hcuts, turns_iff hvalid]
    exact ⟨.staff, by decide +kernel⟩
  · intro s hs hcovers
    rw [(htold s hs 720 hcovers).1]
    decide +kernel

end Team

end NurseryRota
