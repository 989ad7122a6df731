import Mathlib.Data.List.Induction
import NurseryRota.Proofs.Headcounts
import NurseryRota.Proofs.ReportByDay

/-!
# Checking never gives up

Under accepted rules a snapshot of fewer than `2 ^ 32` bookings has a report.  The ends of spans,
sorted by minute with departures first, are balanced: a span that has ended began at an earlier
minute.  The spans of a day come from shifts within the day, and merging keeps them there.
-/

namespace NurseryRota

namespace Change

variable {cs : List Change}

def ends (s : Role × Span) : List Change := [⟨s.2.start, true, s.1⟩, ⟨s.2.stop, false, s.1⟩]

theorem minute_le_of_key_le {c c' : Change} (h : c.key ≤ c'.key) : c.minute ≤ c'.minute := by
  unfold key at h
  rw [SortKey.cons_le_cons] at h
  omega

theorem countP_ends (spans : List (Role × Span)) (keep : Change → Bool) :
    (spans.flatMap ends).countP keep =
      spans.countP (fun s => keep ⟨s.2.start, true, s.1⟩) +
        spans.countP (fun s => keep ⟨s.2.stop, false, s.1⟩) := by
  induction spans with
  | nil => rfl
  | cons s spans ih =>
      simp only [List.flatMap_cons, List.countP_append, ih, ends, List.countP_cons,
        List.countP_nil]
      omega

theorem arrivals_ends (spans : List (Role × Span)) :
    arrivals (spans.flatMap ends) = spans.length := by
  simp [arrivals, countP_ends]

section Prefix

variable {p rest : List Change} {spans : List (Role × Span)} {m : Int} (r : Role)

theorem departuresOf_le_ended (hperm : (p ++ rest).Perm (spans.flatMap ends))
    (hp : ∀ a ∈ p, a.minute ≤ m) :
    departuresOf r p ≤ spans.countP fun s => decide (s.1 = r) && decide (s.2.stop ≤ m) := by
  have hwhole := hperm.countP_eq fun a =>
    !a.arrives && decide (a.role = r) && decide (a.minute ≤ m)
  rw [countP_ends, List.countP_append] at hwhole
  simp only [Bool.not_true, Bool.false_and, Bool.not_false, Bool.true_and, List.countP_false,
    Function.const_apply] at hwhole
  have hmono : departuresOf r p ≤
      p.countP fun a => !a.arrives && decide (a.role = r) && decide (a.minute ≤ m) := by
    apply List.countP_mono_left
    intro a ha hkeep
    simpa [hkeep] using hp a ha
  omega

theorem begun_le_arrivalsOf (hperm : (p ++ rest).Perm (spans.flatMap ends))
    (hrest : ∀ a ∈ rest, m ≤ a.minute) :
    (spans.countP fun s => decide (s.1 = r) && decide (s.2.start < m)) ≤ arrivalsOf r p := by
  have hwhole := hperm.countP_eq fun a =>
    a.arrives && decide (a.role = r) && decide (a.minute < m)
  rw [countP_ends, List.countP_append] at hwhole
  simp only [Bool.false_and, Bool.true_and, List.countP_false, Function.const_apply] at hwhole
  have hnone : (rest.countP fun a =>
      a.arrives && decide (a.role = r) && decide (a.minute < m)) = 0 := by
    rw [List.countP_eq_zero]
    intro a ha
    have := hrest a ha
    simp only [Bool.and_eq_true, decide_eq_true_eq, not_and]
    omega
  have hmono : (p.countP fun a => a.arrives && decide (a.role = r) && decide (a.minute < m)) ≤
      arrivalsOf r p := by
    apply List.countP_mono_left
    intro a _ hkeep
    simp only [Bool.and_eq_true] at hkeep ⊢
    exact hkeep.1
  omega

end Prefix

/-- The ends of spans are balanced in their order: by the minute of a departure, whoever has left
arrived before that minute. -/
theorem balanced_ends {spans : List (Role × Span)}
    (hsorted : cs.Pairwise fun a b => a.key ≤ b.key) (hperm : cs.Perm (spans.flatMap ends))
    (hspans : ∀ s ∈ spans, s.2.start < s.2.stop) : Balanced .nobody cs := by
  intro p hp r
  induction p using List.reverseRecOn with
  | nil => exact Nat.zero_le _
  | append_singleton p c ih =>
      have hshorter := ih ((List.prefix_append p [c]).trans hp)
      cases harrives : c.arrives with
      | true =>
          rw [departuresOf_append, arrivalsOf_append]
          have hnone : departuresOf r [c] = 0 := by simp [departuresOf, harrives]
          omega
      | false =>
          obtain ⟨rest, rfl⟩ := hp
          obtain ⟨hdone, -, hlater⟩ := List.pairwise_append.mp hsorted
          have hlast : ∀ a ∈ p ++ [c], a.minute ≤ c.minute := by
            intro a ha
            rcases List.mem_append.mp ha with ha | ha
            · exact minute_le_of_key_le ((List.pairwise_append.mp hdone).2.2 a ha c (by simp))
            · exact Int.le_of_eq (congrArg Change.minute (List.mem_singleton.mp ha))
          have hnext : ∀ a ∈ rest, c.minute ≤ a.minute := fun a ha =>
            minute_le_of_key_le (hlater c (by simp) a ha)
          have hleft := departuresOf_le_ended r hperm hlast
          have hcame := begun_le_arrivalsOf r hperm hnext
          have hended : (spans.countP fun s => decide (s.1 = r) && decide (s.2.stop ≤ c.minute)) ≤
              spans.countP fun s => decide (s.1 = r) && decide (s.2.start < c.minute) := by
            apply List.countP_mono_left
            intro s hs
            have := hspans s hs
            simp only [Bool.and_eq_true, decide_eq_true_eq]
            rintro ⟨hrole, hstop⟩
            exact ⟨hrole, by omega⟩
          omega

end Change

namespace Span

def Fits (s : Span) : Prop := 0 ≤ s.start ∧ s.start < s.stop ∧ s.stop ≤ minutesPerDay

variable {current : Span} {spans : List Span}

/-- What joining two spans keeps, merging keeps. -/
theorem forall_mem_mergeInto {P : Span → Prop}
    (hjoin : ∀ a b, P a → P b → P ⟨a.start, max a.stop b.stop⟩) (hcurrent : P current)
    (hspans : ∀ s ∈ spans, P s) : ∀ s ∈ mergeInto current spans, P s := by
  induction spans generalizing current with
  | nil => simpa [mergeInto] using hcurrent
  | cons s rest ih =>
      have hs := hspans s (by simp)
      have hrest := fun t ht => hspans t (List.mem_cons_of_mem s ht)
      unfold mergeInto
      split
      · exact ih (hjoin current s hcurrent hs) hrest
      · intro t ht
        rcases List.mem_cons.mp ht with rfl | ht
        · exact hcurrent
        · exact ih hs hrest t ht

theorem forall_mem_merge {P : Span → Prop}
    (hjoin : ∀ a b, P a → P b → P ⟨a.start, max a.stop b.stop⟩) (hspans : ∀ s ∈ spans, P s) :
    ∀ s ∈ merge spans, P s := by
  cases spans with
  | nil => simp [merge]
  | cons s rest =>
      exact forall_mem_mergeInto hjoin (hspans s (by simp)) fun t ht =>
        hspans t (List.mem_cons_of_mem s ht)

theorem length_mergeInto_le : (mergeInto current spans).length ≤ spans.length + 1 := by
  induction spans generalizing current with
  | nil => simp [mergeInto]
  | cons s rest ih =>
      unfold mergeInto
      split
      · exact Nat.le_succ_of_le ih
      · exact Nat.succ_le_succ ih

theorem fits_of_mem_merge (hspans : ∀ s ∈ spans, s.Fits) : ∀ s ∈ merge spans, s.Fits := by
  refine forall_mem_merge ?_ hspans
  intro a b ha hb
  unfold Fits at ha hb ⊢
  dsimp only
  omega

theorem length_merge_le (spans : List Span) : (merge spans).length ≤ spans.length := by
  cases spans with
  | nil => exact Nat.le_refl 0
  | cons s rest => exact length_mergeInto_le

end Span

namespace Team

variable (t : Team) (d : Weekday)

def spans : List (Role × Span) :=
  (presences d t.stays).flatMap fun p => p.spans.map fun s => (p.role, s)

theorem changes_eq_stretches : t.changes d =
    stretches Change.minute (sortBy Change.key ((t.spans d).flatMap Change.ends)) := by
  unfold changes spans
  rw [List.flatMap_assoc]
  congr 2
  apply List.flatMap_congr
  intro p _
  rw [List.flatMap_map]
  rfl

variable {t}

theorem length_spans_le (t : Team) (d : Weekday) :
    (t.spans d).length ≤ t.stays.length := by
  have hgroups : ∀ gs : List ((MemberId × Role) × List Stay),
      (gs.flatMap fun g => (Span.merge (g.2.map Stay.span)).map fun s => (g.1.2, s)).length ≤
        (gs.flatMap Prod.snd).length := by
    intro gs
    induction gs with
    | nil => exact Nat.le_refl 0
    | cons g gs ih =>
        have hmerge := Span.length_merge_le (g.2.map Stay.span)
        simp only [List.flatMap_cons, List.length_append, List.length_map] at hmerge ⊢
        omega
  unfold spans presences
  rw [List.flatMap_map]
  refine Nat.le_trans (hgroups _) ?_
  rw [flatMap_stretches, length_sortBy]
  exact List.length_filter_le _ _

theorem fits_of_mem_stretches {d : Weekday} (hvalid : ∀ s ∈ t.stays, s.interval.Valid)
    {g : (MemberId × Role) × List Stay} (hg : g ∈ stretches Stay.person (sortBy Stay.key
      (t.stays.filter fun s => s.interval.day = d))) : ∀ u ∈ g.2.map Stay.span, u.Fits := by
  intro u hu
  obtain ⟨stay, hstay, rfl⟩ := List.mem_map.mp hu
  have hmem : stay ∈ t.stays := by
    have hjoined : stay ∈ (stretches Stay.person (sortBy Stay.key
        (t.stays.filter fun s => s.interval.day = d))).flatMap Prod.snd :=
      List.mem_flatMap.mpr ⟨g, hg, hstay⟩
    rw [flatMap_stretches, mem_sortBy] at hjoined
    exact (List.mem_filter.mp hjoined).1
  have hstay := hvalid stay hmem
  exact ⟨hstay.start_nonneg, hstay.start_lt_stop, hstay.stop_le⟩

theorem fits_of_mem_spans (d : Weekday) (hvalid : ∀ s ∈ t.stays, s.interval.Valid) :
    ∀ s ∈ t.spans d, s.2.Fits := by
  intro s hs
  unfold spans presences at hs
  rw [List.flatMap_map] at hs
  obtain ⟨g, hg, hs⟩ := List.mem_flatMap.mp hs
  obtain ⟨span, hspan, rfl⟩ := List.mem_map.mp hs
  exact Span.fits_of_mem_merge (fits_of_mem_stretches hvalid hg) span hspan

theorem minute_injective : Function.Injective fun m : Int => (⟨[m]⟩ : SortKey) := by
  intro m n h
  simpa using h

theorem labelsAscend_minute (cs : List Change) :
    LabelsAscend Change.minute (fun m => ⟨[m]⟩) (sortBy Change.key cs) := by
  refine (pairwise_sortBy Change.key cs).imp ?_
  intro a b hab
  exact SortKey.singleton_le_singleton.mpr (Change.minute_le_of_key_le hab)

theorem changes_ascend (t : Team) (d : Weekday) :
    (t.changes d).Pairwise fun g h => g.1 < h.1 := by
  rw [changes_eq_stretches]
  refine (pairwise_stretches minute_injective (labelsAscend_minute _)).imp ?_
  rintro g h ⟨hle, hne⟩
  exact lt_of_le_of_ne (SortKey.singleton_le_singleton.mp hle) hne

theorem flatMap_changes (t : Team) (d : Weekday) :
    (t.changes d).flatMap Prod.snd = sortBy Change.key ((t.spans d).flatMap Change.ends) := by
  rw [changes_eq_stretches, flatMap_stretches]

theorem minute_of_mem_changes (t : Team) (d : Weekday) :
    ∀ g ∈ t.changes d, ∀ c ∈ g.2, c.minute = g.1 := by
  rw [changes_eq_stretches]
  exact label_of_mem_stretches Change.minute _

variable {d : Weekday}

theorem mem_flatMap_changes {c : Change} :
    c ∈ (t.changes d).flatMap Prod.snd ↔ ∃ s ∈ t.spans d, c ∈ Change.ends s := by
  rw [flatMap_changes, mem_sortBy, List.mem_flatMap]

/-- The minutes of change are those at which spans start or stop. -/
theorem exists_mem_changes_iff {minute : Int} :
    (∃ g ∈ t.changes d, minute = g.1) ↔
      ∃ s ∈ t.spans d, minute = s.2.start ∨ minute = s.2.stop := by
  constructor
  · rintro ⟨g, hg, rfl⟩
    have hne : g.2 ≠ [] := by
      rw [changes_eq_stretches] at hg
      exact ((mem_stretches_iff minute_injective (labelsAscend_minute _)).mp hg).1
    obtain ⟨c, hc⟩ := List.exists_mem_of_ne_nil _ hne
    obtain ⟨s, hs, hends⟩ := mem_flatMap_changes.mp (List.mem_flatMap.mpr ⟨g, hg, hc⟩)
    rw [← minute_of_mem_changes t d g hg c hc]
    simp only [Change.ends, List.mem_cons, List.not_mem_nil, or_false] at hends
    rcases hends with rfl | rfl
    · exact ⟨s, hs, Or.inl rfl⟩
    · exact ⟨s, hs, Or.inr rfl⟩
  · have hends : ∀ s ∈ t.spans d, ∀ c ∈ Change.ends s, ∃ g ∈ t.changes d, c.minute = g.1 := by
      intro s hs c hc
      obtain ⟨g, hg, hcg⟩ := List.mem_flatMap.mp (mem_flatMap_changes.mpr ⟨s, hs, hc⟩)
      exact ⟨g, hg, minute_of_mem_changes t d g hg c hcg⟩
    rintro ⟨s, hs, rfl | rfl⟩
    · exact hends s hs ⟨s.2.start, true, s.1⟩ (by simp [Change.ends])
    · exact hends s hs ⟨s.2.stop, false, s.1⟩ (by simp [Change.ends])

theorem balanced_changes (d : Weekday) (hvalid : ∀ s ∈ t.stays, s.interval.Valid) :
    Change.Balanced .nobody ((t.changes d).flatMap Prod.snd) := by
  rw [flatMap_changes]
  exact Change.balanced_ends (pairwise_sortBy _ _) (sortBy_perm _ _) fun s hs =>
    (fits_of_mem_spans d hvalid s hs).2.1

theorem arrivals_changes_le (t : Team) (d : Weekday) :
    Change.arrivals ((t.changes d).flatMap Prod.snd) ≤ t.stays.length := by
  have hperm := sortBy_perm Change.key ((t.spans d).flatMap Change.ends)
  have harrivals : Change.arrivals ((t.changes d).flatMap Prod.snd) = (t.spans d).length := by
    rw [flatMap_changes, ← Change.arrivals_ends]
    exact hperm.countP_eq _
  rw [harrivals]
  exact length_spans_le t d

variable (project : ProjectId) {rules : Rules} (hrules : rules.Accepted) (policy : Policy)

include hrules in
theorem coverage_succeeds (d : Weekday) (hvalid : ∀ s ∈ t.stays, s.interval.Valid)
    (hsize : t.stays.length < capacity 32) : Succeeds (t.coverage rules policy d) := by
  have harrivals := arrivals_changes_le t d
  have hnobody : Headcount.nobody.everybody = 0 := rfl
  refine slicesFrom_succeeds hrules policy d (balanced_changes d hvalid) (by omega)
    (changes_ascend t d) ?_
  intro g hg
  obtain ⟨s, hs, hminute⟩ := exists_mem_changes_iff.mp ⟨g, hg, rfl⟩
  obtain ⟨hstart, hlong, hstop⟩ := fits_of_mem_spans d hvalid s hs
  omega

include hrules in
theorem checkable_of_valid (hvalid : ∀ s ∈ t.stays, s.interval.Valid)
    (hsize : t.stays.length < capacity 32) : t.Checkable project rules policy := by
  intro d
  obtain ⟨slices, hslices⟩ := coverage_succeeds hrules policy d hvalid hsize
  unfold shortages
  rw [hslices]
  exact succeeds_ok _

end Team

namespace Team

variable {fs : List Filed}

theorem length_stays_ofFiled_le (fs : List Filed) :
    (ofFiled fs).stays.length ≤ fs.length := by
  induction fs with
  | nil => exact Nat.le_refl 0
  | cons f fs ih =>
      simp only [stays, ofFiled, List.length_append, List.length_map] at ih ⊢
      cases hrole : f.enrolment.role with
      | staff =>
          simp [Filed.staff?, Filed.child?, hrole] at ih ⊢
          omega
      | child b =>
          simp [Filed.staff?, Filed.child?, hrole] at ih ⊢
          omega

theorem mem_stays_ofFiled {fs : List Filed} {stay : Stay} :
    stay ∈ (ofFiled fs).stays ↔
      ∃ f ∈ fs, stay = ⟨f.shift.member, f.enrolment.role, f.shift.interval⟩ := by
  simp only [stays, ofFiled, List.mem_append, List.mem_map, List.mem_filterMap]
  constructor
  · rintro (⟨shift, ⟨f, hf, hshift⟩, rfl⟩ | ⟨child, ⟨f, hf, hchild⟩, rfl⟩)
    · refine ⟨f, hf, ?_⟩
      cases hrole : f.enrolment.role <;> simp [Filed.staff?, hrole] at hshift
      rw [hshift]
    · refine ⟨f, hf, ?_⟩
      cases hrole : f.enrolment.role <;> simp [Filed.child?, hrole] at hchild
      rw [← hchild]
  · rintro ⟨f, hf, rfl⟩
    cases hrole : f.enrolment.role with
    | staff => exact Or.inl ⟨f.shift, ⟨f, hf, by simp [Filed.staff?, hrole]⟩, rfl⟩
    | child b => exact Or.inr ⟨⟨f.shift, b⟩, ⟨f, hf, by simp [Filed.child?, hrole]⟩, rfl⟩

theorem valid_stays_ofFiled (hvalid : ∀ f ∈ fs, f.shift.interval.Valid) :
    ∀ s ∈ (ofFiled fs).stays, s.interval.Valid := by
  intro s hs
  obtain ⟨f, hf, rfl⟩ := mem_stays_ofFiled.mp hs
  exact hvalid f hf

end Team

namespace Snapshot

variable {s : Snapshot} {roster : Roster} {g : ProjectId × List Filed}

theorem length_filed_le (s : Snapshot) (roster : Roster) : (s.filed roster).length ≤ s.size := by
  unfold filed size
  apply Nat.le_trans (List.length_filterMap_le _ _)
  exact Nat.le_of_eq (List.length_map _)

theorem valid_of_mem_filed : ∀ f ∈ s.filed roster, f.shift.interval.Valid := by
  intro f hf
  obtain ⟨b, -, hfile⟩ := mem_filed.mp hf
  obtain ⟨i, m, hnormal, -, rfl⟩ := Booking.file_eq_ok_iff.mp hfile
  exact Interval.valid_of_normalize hnormal

theorem mem_groups_iff : g ∈ s.groups roster ↔
    g.2 ≠ [] ∧ g.2 = (sortBy Filed.key (s.filed roster)).filter
      fun f => f.enrolment.project = g.1 :=
  mem_stretches_iff projectRank_injective (labelsAscend_project _)

theorem mem_of_mem_groups (hg : g ∈ s.groups roster) {f : Filed} :
    f ∈ g.2 ↔ f ∈ s.filed roster ∧ f.enrolment.project = g.1 := by
  rw [(mem_groups_iff.mp hg).2]
  simp [mem_sortBy]

theorem valid_stays_of_mem_groups (hg : g ∈ s.groups roster) :
    ∀ stay ∈ (Team.ofFiled g.2).stays, stay.interval.Valid :=
  Team.valid_stays_ofFiled fun f hf => valid_of_mem_filed f ((mem_of_mem_groups hg).mp hf).1

theorem length_stays_le_size (hg : g ∈ s.groups roster) :
    (Team.ofFiled g.2).stays.length ≤ s.size := by
  have hstays := Team.length_stays_ofFiled_le g.2
  have hfiled := length_filed_le s roster
  have hfilter := List.length_filter_le (fun f : Filed => decide (f.enrolment.project = g.1))
    (sortBy Filed.key (s.filed roster))
  rw [← (mem_groups_iff.mp hg).2, length_sortBy] at hfilter
  omega

/-- Under accepted rules every snapshot of fewer than `2 ^ 32` bookings can be checked. -/
theorem checkable_of_accepted {rules : Rules} (hrules : rules.Accepted) (policy : Policy)
    (hsize : s.size < capacity 32) : s.Checkable roster rules policy := by
  intro g hg
  have hlength := length_stays_le_size hg
  apply Team.checkable_of_valid _ hrules
  · exact valid_stays_of_mem_groups hg
  · omega

end Snapshot

end NurseryRota
