import NurseryRota.Proofs.Timeline
import NurseryRota.Validation

/-!
# A team's day

Conflicts and shortages never cross midnight: what a team's week shows on a day is what the
shifts of that day show on their own.  For conflicts this holds because the sweep runs over one
member's day at a time, and for shortages because the timeline of a day reads the stays of that
day only.
-/

namespace NurseryRota

theorem SortKey.precedes_of_append {xs ys us vs : List Int} (hlength : xs.length = ys.length)
    (h : SortKey.precedes (xs ++ us) (ys ++ vs)) : SortKey.precedes xs ys := by
  induction xs generalizing ys with
  | nil => rfl
  | cons x xs ih =>
      cases ys with
      | nil => simp at hlength
      | cons y ys =>
          simp only [List.cons_append, SortKey.precedes, Bool.or_eq_true, Bool.and_eq_true,
            decide_eq_true_eq] at h ⊢
          rcases h with hlt | ⟨heq, h⟩
          · exact Or.inl hlt
          · exact Or.inr ⟨heq, ih (by simpa using hlength) h⟩

theorem Weekday.rank_inj {a b : Weekday} : a.rank = b.rank ↔ a = b := by
  cases a <;> cases b <;> decide

theorem Weekday.nodup_all : Weekday.all.Nodup := by decide

theorem Weekday.flatMap_all {α : Type*} {f : Weekday → List α} (d : Weekday)
    (hothers : ∀ e, e ≠ d → f e = []) : Weekday.all.flatMap f = f d :=
  flatMap_of_nodup nodup_all (mem_all d) hothers

/-! ## Conflicts -/

def Shift.memberDayRank (p : MemberId × Weekday) : SortKey := ⟨[p.1.rank, p.2.rank]⟩

theorem Shift.memberDayRank_injective : Function.Injective Shift.memberDayRank := by
  rintro ⟨m, d⟩ ⟨n, e⟩ h
  simp only [Shift.memberDayRank, SortKey.mk.injEq, List.cons.injEq, and_true] at h
  rw [Uuid.rank_inj.mp h.1, Weekday.rank_inj.mp h.2]

theorem conflicts_nil : conflicts [] = [] := by
  unfold conflicts
  rw [sortBy_nil]
  rfl

theorem labelsAscend_sweep (shifts : List Shift) :
    LabelsAscend Shift.memberDay Shift.memberDayRank (sortBy Shift.sweepKey shifts) := by
  refine (pairwise_sortBy Shift.sweepKey shifts).imp ?_
  intro a b h
  have hkeys : SortKey.precedes
      ([a.member.rank, a.interval.day.rank] ++ [a.interval.start, a.id.rank])
      ([b.member.rank, b.interval.day.rank] ++ [b.interval.start, b.id.rank]) := h
  exact SortKey.precedes_of_append rfl hkeys

/-- The member and the day that a conflict is about. -/
def Conflict.memberDay (c : Conflict) : MemberId × Weekday := (c.member, c.overlap.day)

theorem memberDay_of_conflictWith {a b : Shift} {c : Conflict} (h : a.conflictWith b = some c) :
    c.memberDay = a.memberDay := by
  unfold Shift.conflictWith Interval.intersection at h
  split at h
  · simp only [Option.map_some, Option.some.injEq] at h
    subst h
    rfl
  · simp at h

theorem memberDay_of_mem_sweepConflicts {p : MemberId × Weekday} {active shifts : List Shift}
    {reach : Int} (hactive : ∀ a ∈ active, a.memberDay = p)
    (hshifts : ∀ s ∈ shifts, s.memberDay = p) :
    ∀ c ∈ sweepConflicts active reach shifts, c.memberDay = p := by
  induction shifts generalizing active reach with
  | nil => simp [sweepConflicts]
  | cons s rest ih =>
      intro c hc
      simp only [sweepConflicts, List.mem_append, List.mem_filterMap] at hc
      have hrunning : ∀ a ∈ (if reach ≤ s.interval.start then []
          else active.filter fun a => decide (s.interval.start < a.interval.stop)),
          a.memberDay = p := by
        intro a ha
        split at ha
        · simp at ha
        · exact hactive a (List.mem_of_mem_filter ha)
      rcases hc with ⟨a, ha, hconflict⟩ | hc
      · exact (memberDay_of_conflictWith hconflict).trans (hrunning a ha)
      · refine ih ?_ (fun t ht => hshifts t (by simp [ht])) c hc
        intro a ha
        rcases List.mem_append.mp ha with ha | ha
        · exact hrunning a ha
        · rw [List.mem_singleton.mp ha]
          exact hshifts s (by simp)

/-- The conflicts of some members' days are those among the shifts of these days, in the same
order. -/
theorem conflicts_filter (shifts : List Shift) (keep : MemberId × Weekday → Bool) :
    conflicts (shifts.filter fun s => keep s.memberDay) =
      (conflicts shifts).filter fun c => keep c.memberDay := by
  unfold conflicts
  rw [sortBy_filter, flatMap_stretches_filter Shift.memberDayRank_injective
    (labelsAscend_sweep shifts) _ (fun _ ss => sweepConflicts [] 0 ss) (fun _ => rfl),
    List.filter_flatMap]
  apply List.flatMap_congr
  intro g hg
  have hlabel : ∀ s ∈ g.2, s.memberDay = g.1 := label_of_mem_stretches Shift.memberDay _ g hg
  have hsweep : ∀ c ∈ sweepConflicts [] 0 g.2, c.memberDay = g.1 :=
    memberDay_of_mem_sweepConflicts (by simp) hlabel
  cases hkeep : keep g.1 with
  | true =>
      have hall : g.2.filter (fun s => keep s.memberDay) = g.2 := by
        rw [List.filter_eq_self]
        intro s hs
        rw [hlabel s hs, hkeep]
      rw [hall]
      symm
      rw [List.filter_eq_self]
      intro c hc
      rw [hsweep c hc, hkeep]
  | false =>
      have hnone : g.2.filter (fun s => keep s.memberDay) = [] := by
        rw [List.filter_eq_nil_iff]
        intro s hs
        simp [hlabel s hs, hkeep]
      rw [hnone]
      symm
      rw [show sweepConflicts [] 0 [] = [] from rfl, List.filter_eq_nil_iff]
      intro c hc
      simp [hsweep c hc, hkeep]

theorem conflicts_filter_day (shifts : List Shift) (d : Weekday) :
    conflicts (shifts.filter fun s => s.interval.day = d) =
      (conflicts shifts).filter fun c => c.overlap.day = d :=
  conflicts_filter shifts fun p => p.2 = d

theorem conflicts_filter_member (shifts : List Shift) (m : MemberId) :
    conflicts (shifts.filter fun s => s.member = m) =
      (conflicts shifts).filter fun c => c.member = m :=
  conflicts_filter shifts fun p => p.1 = m

/-! ## Shortages -/

namespace Team

def onDay (t : Team) (d : Weekday) : Team :=
  ⟨t.staff.filter fun s => s.interval.day = d, t.children.filter fun a => a.shift.interval.day = d⟩

theorem stays_onDay (t : Team) (d : Weekday) :
    (t.onDay d).stays = t.stays.filter fun s => s.interval.day = d := by
  simp [stays, onDay, List.filter_map, Function.comp_def]

theorem changes_onDay_self (t : Team) (d : Weekday) : (t.onDay d).changes d = t.changes d := by
  simp [changes, presences, stays_onDay, List.filter_filter]

theorem changes_eq_nil {t : Team} {d : Weekday}
    (h : t.stays.filter (fun s => s.interval.day = d) = []) : t.changes d = [] := by
  unfold changes presences
  rw [h, sortBy_nil]
  simp [stretches, sortBy_nil]

theorem changes_onDay_of_ne (t : Team) {d e : Weekday} (h : d ≠ e) :
    (t.onDay d).changes e = [] := by
  apply changes_eq_nil
  rw [stays_onDay, List.filter_filter, List.filter_eq_nil_iff]
  intro s _
  simp only [Bool.and_eq_true, decide_eq_true_eq, not_and]
  rintro rfl hd
  exact h hd.symm

variable (project : ProjectId) (rules : Rules) (policy : Policy)

theorem shortages_onDay_self (t : Team) (d : Weekday) :
    (t.onDay d).shortages project rules policy d = t.shortages project rules policy d := by
  unfold shortages coverage
  rw [changes_onDay_self]

theorem shortages_of_changes_eq_nil {t : Team} {d : Weekday} (h : t.changes d = []) :
    t.shortages project rules policy d = .ok [] := by
  unfold shortages coverage
  rw [h]
  rfl

theorem shortages_onDay_of_ne (t : Team) {d e : Weekday} (h : d ≠ e) :
    (t.onDay d).shortages project rules policy e = .ok [] :=
  shortages_of_changes_eq_nil project rules policy (changes_onDay_of_ne t h)

end Team

theorem Shortage.valid_extend {p : Shortage} {s : Slice} (hp : p.window.Valid)
    (hs : s.window.Valid) (hmeets : p.window.stop = s.window.start) :
    (p.extend s).window.Valid := by
  have hlong := hp.start_lt_stop
  have hlongs := hs.start_lt_stop
  constructor
  · exact hp.start_nonneg
  · dsimp only [extend]
    omega
  · exact hs.stop_le

/-- What holds of every shortage that a short slice opens, and survives a short slice that begins
where the shortage stops, holds of the shortages collected. -/
theorem forall_mem_collect {P : Shortage → Prop} {project : ProjectId} {pending : Option Shortage}
    {slices : List Slice} (hpending : ∀ p ∈ pending, P p)
    (hopened : ∀ s ∈ slices, s.short = true → P (Shortage.ofSlice project s))
    (hextended : ∀ p, ∀ s ∈ slices, s.short = true → p.window.stop = s.window.start → P p →
      P (Shortage.extend p s)) :
    ∀ v ∈ Shortage.collect project pending slices, P v := by
  induction slices generalizing pending with
  | nil => simpa [Shortage.collect] using hpending
  | cons s rest ih =>
      have hrest : ∀ t ∈ rest, t.short = true → P (Shortage.ofSlice project t) :=
        fun t ht => hopened t (List.mem_cons_of_mem s ht)
      have hmore := fun p t ht => hextended p t (List.mem_cons_of_mem s ht)
      unfold Shortage.collect
      cases hshort : s.short with
      | false =>
          rw [Bool.not_false, if_pos rfl]
          intro v hv
          rcases List.mem_append.mp hv with hv | hv
          · exact hpending v (by simpa using hv)
          · exact ih (by simp) hrest hmore v hv
      | true =>
          rw [Bool.not_true, if_neg Bool.false_ne_true]
          have hs : ∀ p ∈ some (Shortage.ofSlice project s), P p := by
            simpa using hopened s (by simp) hshort
          cases pending with
          | none => exact ih hs hrest hmore
          | some p =>
              have hp : P p := hpending p rfl
              dsimp only
              split
              · next hmeets =>
                  have hlonger := hextended p s (by simp) hshort hmeets hp
                  exact ih (by simpa using hlonger) hrest hmore
              · intro v hv
                rcases List.mem_cons.mp hv with rfl | hv
                · exact hp
                · exact ih hs hrest hmore v hv

section Shortages

variable {t : Team} {project : ProjectId} {rules : Rules} {policy : Policy} {d : Weekday}
  {vs : List Shortage}

theorem forall_mem_shortages {P : Shortage → Prop}
    (h : t.shortages project rules policy d = .ok vs)
    (hopened : ∀ s : Slice, s.Drawn rules policy d → s.short = true →
      P (Shortage.ofSlice project s))
    (hextended : ∀ p, ∀ s : Slice, s.Drawn rules policy d → s.short = true →
      p.window.stop = s.window.start → P p → P (Shortage.extend p s)) : ∀ v ∈ vs, P v := by
  unfold Team.shortages at h
  obtain ⟨slices, hslices, hvs⟩ := bind_eq_ok_iff.mp h
  cases hvs
  have hdrawn := drawn_of_mem_slicesFrom hslices
  exact forall_mem_collect (by simp) (fun s hs => hopened s (hdrawn s hs))
    fun p s hs => hextended p s (hdrawn s hs)

theorem day_of_mem_shortages (h : t.shortages project rules policy d = .ok vs) :
    ∀ v ∈ vs, v.window.day = d :=
  forall_mem_shortages h (fun _ hs _ => hs.day) fun _ _ _ _ _ hp => hp

theorem project_of_mem_shortages (h : t.shortages project rules policy d = .ok vs) :
    ∀ v ∈ vs, v.project = project :=
  forall_mem_shortages h (fun _ _ _ => rfl) fun _ _ _ _ _ hp => hp

end Shortages

end NurseryRota
