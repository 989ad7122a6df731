import NurseryRota.Proofs.MergedSpans

/-!
# Presence spans

Merged spans have gaps between them and cover the minutes of the spans that they come from, so they
are the maximal stretches of these minutes.  The spans of a member in a role are therefore told by
the minutes at which the member is there: each lasts as long as it can.
-/

namespace NurseryRota

namespace Span

/-- The span is a stretch of such minutes that cannot be longer. -/
structure IsMaximal (there : Int → Prop) (s : Span) : Prop where
  nonempty : s.start < s.stop
  throughout : ∀ minute, s.start ≤ minute → minute < s.stop → there minute
  before : ¬ there (s.start - 1)
  after : ¬ there s.stop

variable {there : Int → Prop} {s u : Span} {spans : List Span} {minute : Int}

theorem IsMaximal.start_le (hs : s.IsMaximal there) (hu : u.IsMaximal there)
    (hsm : s.covers minute) (hum : u.covers minute) : u.start ≤ s.start := by
  rw [covers_iff] at hsm hum
  by_contra hearlier
  exact hu.before (hs.throughout (u.start - 1) (by omega) (by omega))

theorem IsMaximal.stop_le (hs : s.IsMaximal there) (hu : u.IsMaximal there)
    (hsm : s.covers minute) (hum : u.covers minute) : s.stop ≤ u.stop := by
  rw [covers_iff] at hsm hum
  by_contra hlater
  exact hu.after (hs.throughout u.stop (by omega) (by omega))

/-- Two maximal stretches that share a minute are the same. -/
theorem IsMaximal.eq (hs : s.IsMaximal there) (hu : u.IsMaximal there) (hsm : s.covers minute)
    (hum : u.covers minute) : s = u := by
  have hstart := Int.le_antisymm (hu.start_le hs hum hsm) (hs.start_le hu hsm hum)
  have hstop := Int.le_antisymm (hs.stop_le hu hsm hum) (hu.stop_le hs hum hsm)
  cases s
  cases u
  rw [Span.mk.injEq]
  exact ⟨hstart, hstop⟩

theorem Apart.isMaximal (hapart : Apart spans) (hlong : ∀ s ∈ spans, s.start < s.stop)
    (hs : s ∈ spans) : s.IsMaximal fun minute => ∃ u ∈ spans, u.covers minute := by
  have hself := hlong s hs
  obtain ⟨earlier, later, rfl⟩ := List.append_of_mem hs
  obtain ⟨-, hfrom, hbefore⟩ := List.pairwise_append.mp hapart
  have hafter := (List.pairwise_cons.mp hfrom).1
  -- Every other span keeps a minute away, so neither bound of this one is covered from outside.
  have hother : ∀ u ∈ earlier ++ s :: later, u.stop < s.start ∨ u = s ∨ s.stop < u.start := by
    intro u hu
    rcases List.mem_append.mp hu with hu | hu
    · exact Or.inl (hbefore u hu s (by simp))
    · rcases List.mem_cons.mp hu with rfl | hu
      · exact Or.inr (Or.inl rfl)
      · exact Or.inr (Or.inr (hafter u hu))
  refine ⟨hself, fun minute hlo hhi => ⟨s, hs, covers_iff.mpr ⟨hlo, hhi⟩⟩, ?_, ?_⟩
  · rintro ⟨u, hu, hcovers⟩
    rw [covers_iff] at hcovers
    rcases hother u hu with hgap | rfl | hgap <;> omega
  · rintro ⟨u, hu, hcovers⟩
    rw [covers_iff] at hcovers
    rcases hother u hu with hgap | rfl | hgap <;> omega

/-- Spans with gaps between them are the maximal stretches of the minutes that they cover. -/
theorem Apart.mem_iff (hapart : Apart spans) (hlong : ∀ s ∈ spans, s.start < s.stop) :
    s ∈ spans ↔ s.IsMaximal fun minute => ∃ u ∈ spans, u.covers minute := by
  constructor
  · exact hapart.isMaximal hlong
  · intro hs
    obtain ⟨u, hu, hcovers⟩ := hs.throughout s.start (Int.le_refl _) hs.nonempty
    have hself : s.covers s.start := covers_iff.mpr ⟨Int.le_refl _, hs.nonempty⟩
    rw [hs.eq (hapart.isMaximal hlong hu) hself hcovers]
    exact hu

theorem lt_of_mem_merge (hlong : ∀ s ∈ spans, s.start < s.stop) :
    ∀ s ∈ merge spans, s.start < s.stop :=
  forall_mem_merge (fun a _ ha _ => by dsimp only; omega) hlong

theorem mem_merge_iff (hsorted : spans.Pairwise fun a b => a.start ≤ b.start)
    (hlong : ∀ s ∈ spans, s.start < s.stop) :
    s ∈ merge spans ↔ s.IsMaximal fun minute => ∃ u ∈ spans, u.covers minute := by
  rw [(apart_merge hsorted).mem_iff (lt_of_mem_merge hlong)]
  simp only [covers_merge hsorted]

end Span

namespace Team

variable {t : Team} {d : Weekday}

theorem eq_of_mem_attendances {g k : (MemberId × Role) × List Stay} (hg : g ∈ t.attendances d)
    (hk : k ∈ t.attendances d) (hperson : g.1 = k.1) : g = k := by
  refine Prod.ext hperson ?_
  rw [(mem_attendances_iff.mp hg).2, (mem_attendances_iff.mp hk).2, hperson]

theorem mem_present_iff_covers {m : MemberId} {r : Role} {stays : List Stay}
    (hg : ((m, r), stays) ∈ t.attendances d) {minute : Int} :
    m ∈ t.present d r minute ↔ ∃ u ∈ stays.map Stay.span, u.covers minute := by
  have hcovers : attends r minute ((m, r), stays) ↔ ∃ u ∈ stays.map Stay.span, u.covers minute := by
    simp [attends, Span.covers, Stay.span, Interval.covers]
  rw [mem_present_iff_attends, ← hcovers]
  constructor
  · rintro ⟨k, hk, hattends, rfl⟩
    rw [eq_of_mem_attendances hg hk (Prod.ext rfl (role_of_attends hattends).symm)]
    exact hattends
  · intro hattends
    exact ⟨_, hg, hattends, rfl⟩

theorem mem_merge_iff_isMaximal (hvalid : ∀ s ∈ t.stays, s.interval.Valid) {m : MemberId}
    {r : Role} {stays : List Stay} (hg : ((m, r), stays) ∈ t.attendances d) {span : Span} :
    span ∈ Span.merge (stays.map Stay.span) ↔
      span.IsMaximal fun minute => m ∈ t.present d r minute := by
  have hlong : ∀ u ∈ stays.map Stay.span, u.start < u.stop := fun u hu =>
    (fits_of_mem_stretches hvalid hg u hu).2.1
  simp only [mem_present_iff_covers hg]
  exact Span.mem_merge_iff (sorted_of_mem_attendances _ hg) hlong

theorem exists_attendance_of_present {m : MemberId} {r : Role} {minute : Int}
    (hm : m ∈ t.present d r minute) : ∃ stays, ((m, r), stays) ∈ t.attendances d := by
  obtain ⟨g, hg, hattends, rfl⟩ := mem_present_iff_attends.mp hm
  obtain rfl := role_of_attends hattends
  exact ⟨g.2, hg⟩

/-- The spans of a member in a role are the maximal stretches of the minutes at which the member is
there. -/
theorem mem_presences_iff (hvalid : ∀ s ∈ t.stays, s.interval.Valid) {m : MemberId} {r : Role}
    {span : Span} :
    (∃ p ∈ presences d t.stays, p.member = m ∧ p.role = r ∧ span ∈ p.spans) ↔
      span.IsMaximal fun minute => m ∈ t.present d r minute := by
  have hpresences : presences d t.stays =
      (t.attendances d).map fun g => ⟨g.1.1, g.1.2, Span.merge (g.2.map Stay.span)⟩ := rfl
  rw [hpresences]
  constructor
  · rintro ⟨p, hp, rfl, rfl, hspan⟩
    obtain ⟨g, hg, rfl⟩ := List.mem_map.mp hp
    exact (mem_merge_iff_isMaximal hvalid hg).mp hspan
  · intro hmaximal
    obtain ⟨stays, hg⟩ := exists_attendance_of_present
      (hmaximal.throughout span.start (Int.le_refl _) hmaximal.nonempty)
    exact ⟨_, List.mem_map.mpr ⟨_, hg, rfl⟩, rfl, rfl,
      (mem_merge_iff_isMaximal hvalid hg).mpr hmaximal⟩

/-- Whoever is there at a minute is there for a span that covers it. -/
theorem exists_isMaximal (hvalid : ∀ s ∈ t.stays, s.interval.Valid) {m : MemberId} {r : Role}
    {minute : Int} (hm : m ∈ t.present d r minute) :
    ∃ span : Span, span.IsMaximal (fun minute => m ∈ t.present d r minute) ∧
      span.covers minute := by
  obtain ⟨stays, hg⟩ := exists_attendance_of_present hm
  have hcovered := (mem_present_iff_covers hg).mp hm
  obtain ⟨span, hspan, hcovers⟩ :=
    (Span.covers_merge (sorted_of_mem_attendances _ hg) minute).mpr hcovered
  exact ⟨span, (mem_merge_iff_isMaximal hvalid hg).mp hspan, hcovers⟩

theorem mem_spans_iff (hvalid : ∀ s ∈ t.stays, s.interval.Valid) {s : Role × Span} :
    s ∈ t.spans d ↔ ∃ m, s.2.IsMaximal fun minute => m ∈ t.present d s.1 minute := by
  simp only [← mem_presences_iff hvalid, spans, List.mem_flatMap, List.mem_map]
  constructor
  · rintro ⟨p, hp, span, hspan, rfl⟩
    exact ⟨p.member, p, hp, rfl, rfl, hspan⟩
  · rintro ⟨m, p, hp, -, hrole, hspan⟩
    exact ⟨p, hp, s.2, hspan, Prod.ext hrole rfl⟩

end Team

end NurseryRota
