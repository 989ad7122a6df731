import Mathlib.Data.Finset.Card
import Mathlib.Data.Finset.Dedup
import NurseryRota.Proofs.Faultless

/-!
# Merged spans

Merging spans in the order of their starts keeps the minutes that they cover and leaves gaps
between what remains, so no minute is covered twice.  Counting a day's spans at a minute therefore
counts each member once, however many of their shifts cover it.
-/

namespace NurseryRota

theorem countP_eq_ite_of_pairwise {α : Type*} {p : α → Bool} {xs : List α}
    (h : xs.Pairwise fun a b => p a = true → ¬ p b = true) :
    xs.countP p = if ∃ x ∈ xs, p x = true then 1 else 0 := by
  induction xs with
  | nil => simp
  | cons x xs ih =>
      obtain ⟨hx, hxs⟩ := List.pairwise_cons.mp h
      have hrest := ih hxs
      by_cases hp : p x = true
      · have hnone : ¬ ∃ y ∈ xs, p y = true := fun ⟨y, hy, hpy⟩ => hx y hy hp hpy
        rw [if_neg hnone] at hrest
        simp [hp, hrest]
      · simp [hp, hrest]

namespace Span

def covers (s : Span) (minute : Int) : Bool := s.start ≤ minute && minute < s.stop

variable {current s : Span} {spans : List Span} {minute : Int}

theorem covers_iff : s.covers minute ↔ s.start ≤ minute ∧ minute < s.stop := by
  simp [covers]

/-- A span that starts earlier stands first, and of two that start together the one that ends
earlier. -/
def Ordered (spans : List Span) : Prop :=
  spans.Pairwise fun a b => a.start < b.start ∨ a.start = b.start ∧ a.stop ≤ b.stop

theorem Ordered.starts (h : Ordered spans) : spans.Pairwise fun a b => a.start ≤ b.start :=
  h.imp fun hab => by omega

theorem start_le_of_mem_mergeInto
    (hsorted : (current :: spans).Pairwise fun a b => a.start ≤ b.start) :
    ∀ s ∈ mergeInto current spans, current.start ≤ s.start := by
  induction spans generalizing current with
  | nil => simp [mergeInto]
  | cons s rest ih =>
      obtain ⟨hcurrent, htail⟩ := List.pairwise_cons.mp hsorted
      have hs := hcurrent s (by simp)
      have hrest : rest.Pairwise fun a b => a.start ≤ b.start := (List.pairwise_cons.mp htail).2
      unfold mergeInto
      split
      · exact ih (List.pairwise_cons.mpr ⟨fun t ht => hcurrent t (by simp [ht]), hrest⟩)
      · intro t ht
        rcases List.mem_cons.mp ht with rfl | ht
        · exact Int.le_refl _
        · exact Int.le_trans hs (ih htail t ht)

/-- Spans with gaps between them, in order. -/
def Apart (spans : List Span) : Prop := spans.Pairwise fun a b => a.stop < b.start

theorem apart_mergeInto (hsorted : (current :: spans).Pairwise fun a b => a.start ≤ b.start) :
    Apart (mergeInto current spans) := by
  induction spans generalizing current with
  | nil => exact List.pairwise_singleton _ _
  | cons s rest ih =>
      obtain ⟨hcurrent, htail⟩ := List.pairwise_cons.mp hsorted
      have hrest : rest.Pairwise fun a b => a.start ≤ b.start := (List.pairwise_cons.mp htail).2
      unfold mergeInto
      split
      · exact ih (List.pairwise_cons.mpr ⟨fun t ht => hcurrent t (by simp [ht]), hrest⟩)
      · next hgap =>
          refine List.pairwise_cons.mpr ⟨?_, ih htail⟩
          intro t ht
          have := start_le_of_mem_mergeInto htail t ht
          omega

theorem covers_mergeInto (hsorted : (current :: spans).Pairwise fun a b => a.start ≤ b.start)
    (minute : Int) :
    (∃ s ∈ mergeInto current spans, s.covers minute) ↔
      ∃ s ∈ current :: spans, s.covers minute := by
  induction spans generalizing current with
  | nil => simp [mergeInto]
  | cons s rest ih =>
      obtain ⟨hcurrent, htail⟩ := List.pairwise_cons.mp hsorted
      have hs := hcurrent s (by simp)
      have hrest : rest.Pairwise fun a b => a.start ≤ b.start := (List.pairwise_cons.mp htail).2
      unfold mergeInto
      split
      · next hjoined =>
          have hmerged : (⟨current.start, max current.stop s.stop⟩ : Span).covers minute ↔
              current.covers minute ∨ s.covers minute := by
            simp only [covers_iff]
            omega
          have hextended : ((⟨current.start, max current.stop s.stop⟩ : Span) :: rest).Pairwise
              fun a b => a.start ≤ b.start :=
            List.pairwise_cons.mpr ⟨fun t ht => hcurrent t (by simp [ht]), hrest⟩
          rw [ih hextended]
          simp only [List.mem_cons, exists_eq_or_imp, hmerged, or_assoc]
      · simp only [List.mem_cons, exists_eq_or_imp] at ih ⊢
        rw [ih htail]

theorem apart_merge (hsorted : spans.Pairwise fun a b => a.start ≤ b.start) :
    Apart (merge spans) := by
  cases spans with
  | nil => exact List.Pairwise.nil
  | cons first rest => exact apart_mergeInto hsorted

theorem covers_merge (hsorted : spans.Pairwise fun a b => a.start ≤ b.start) (minute : Int) :
    (∃ u ∈ merge spans, u.covers minute) ↔ ∃ u ∈ spans, u.covers minute := by
  cases spans with
  | nil => rfl
  | cons first rest => exact covers_mergeInto hsorted minute

theorem countP_merge (hsorted : spans.Pairwise fun a b => a.start ≤ b.start) (minute : Int) :
    (merge spans).countP (covers · minute) =
      if ∃ s ∈ spans, s.covers minute then 1 else 0 := by
  have honce : (merge spans).Pairwise fun a b =>
      a.covers minute = true → ¬ b.covers minute = true := by
    refine (apart_merge hsorted).imp ?_
    intro a b hab
    simp only [covers_iff]
    omega
  rw [countP_eq_ite_of_pairwise honce]
  simp only [covers_merge hsorted]

end Span

/-! ## Who is present -/

namespace Stay

def personRank (p : MemberId × Role) : SortKey := ⟨[p.1.rank, p.2.rank]⟩

theorem personRank_injective : Function.Injective personRank := by
  rintro ⟨m, r⟩ ⟨n, q⟩ h
  simp only [personRank, SortKey.mk.injEq, List.cons.injEq, and_true] at h
  rw [Uuid.rank_inj.mp h.1, Role.rank_inj.mp h.2]

theorem labelsAscend_person (stays : List Stay) :
    LabelsAscend person personRank (sortBy key stays) := by
  refine (pairwise_sortBy key stays).imp ?_
  intro a b h
  have hkeys : SortKey.precedes
      ([a.member.rank, a.role.rank] ++ [a.interval.start, a.interval.stop])
      ([b.member.rank, b.role.rank] ++ [b.interval.start, b.interval.stop]) := h
  exact SortKey.precedes_of_append rfl hkeys

theorem ordered_of_key_le {a b : Stay} (hperson : a.person = b.person) (h : a.key ≤ b.key) :
    a.span.start < b.span.start ∨ a.span.start = b.span.start ∧ a.span.stop ≤ b.span.stop := by
  obtain ⟨hmember, hrole⟩ := Prod.mk.inj hperson
  simp only [key, SortKey.cons_le_cons, hmember, hrole] at h
  simp only [span]
  omega

end Stay

namespace Team

variable (t : Team) (d : Weekday)

/-- The members that are there in a role at a minute of a day. -/
def present (r : Role) (minute : Int) : Finset MemberId :=
  ((t.stays.filter fun s => s.role = r && s.interval.day = d && s.interval.covers minute).map
    Stay.member).toFinset

variable {t d}

theorem mem_present {r : Role} {minute : Int} {m : MemberId} :
    m ∈ t.present d r minute ↔ ∃ s ∈ t.stays, s.member = m ∧ s.role = r ∧ s.interval.day = d ∧
      s.interval.covers minute := by
  simp only [present, List.mem_toFinset, List.mem_map, List.mem_filter, Bool.and_eq_true,
    decide_eq_true_eq]
  constructor
  · rintro ⟨s, ⟨hs, ⟨hrole, hday⟩, hcovers⟩, hm⟩
    exact ⟨s, hs, hm, hrole, hday, hcovers⟩
  · rintro ⟨s, hs, hm, hrole, hday, hcovers⟩
    exact ⟨s, ⟨hs, ⟨hrole, hday⟩, hcovers⟩, hm⟩

variable (t d)

/-- The stays of a day, one group for each member and role. -/
def attendances : List ((MemberId × Role) × List Stay) :=
  stretches Stay.person (sortBy Stay.key (t.stays.filter fun s => s.interval.day = d))

theorem spans_eq_attendances : t.spans d =
    (t.attendances d).flatMap fun g => (Span.merge (g.2.map Stay.span)).map fun s => (g.1.2, s) := by
  unfold spans presences attendances
  rw [List.flatMap_map]

variable {t d}

/-- The spans of a member in a role come to be merged in their order. -/
theorem ordered_of_mem_attendances : ∀ g ∈ t.attendances d,
    Span.Ordered (g.2.map Stay.span) := by
  intro g hg
  have hlabel := label_of_mem_stretches Stay.person _ g hg
  have hsorted : g.2.Pairwise fun a b => a.key ≤ b.key := by
    rw [((mem_stretches_iff Stay.personRank_injective (Stay.labelsAscend_person _)).mp hg).2]
    exact (pairwise_sortBy Stay.key _).filter _
  rw [Span.Ordered, List.pairwise_map]
  refine hsorted.imp_of_mem ?_
  intro a b ha hb hab
  exact Stay.ordered_of_key_le ((hlabel a ha).trans (hlabel b hb).symm) hab

theorem sorted_of_mem_attendances : ∀ g ∈ t.attendances d,
    (g.2.map Stay.span).Pairwise fun a b => a.start ≤ b.start := fun g hg =>
  (ordered_of_mem_attendances g hg).starts

/-- The member and role of the group are there at the minute. -/
def attends (r : Role) (minute : Int) (g : (MemberId × Role) × List Stay) : Bool :=
  g.1.2 = r && g.2.any fun s => s.interval.covers minute

theorem role_of_attends {r : Role} {minute : Int} {g : (MemberId × Role) × List Stay}
    (h : attends r minute g = true) : g.1.2 = r := by
  simp only [attends, Bool.and_eq_true, decide_eq_true_eq] at h
  exact h.1

theorem countP_spans_eq_countP_attends (r : Role) (minute : Int) :
    (t.spans d).countP (fun s => decide (s.1 = r) && s.2.covers minute) =
      (t.attendances d).countP (attends r minute) := by
  rw [spans_eq_attendances]
  have hsorted := sorted_of_mem_attendances (t := t) (d := d)
  generalize t.attendances d = gs at hsorted ⊢
  induction gs with
  | nil => rfl
  | cons g gs ih =>
      have hg := Span.countP_merge (hsorted g (by simp)) minute
      have hgroup : ((Span.merge (g.2.map Stay.span)).map fun s => (g.1.2, s)).countP
          (fun s => decide (s.1 = r) && s.2.covers minute) =
            if attends r minute g then 1 else 0 := by
        rw [List.countP_map]
        by_cases hrole : g.1.2 = r
        · have hcover : (∃ s ∈ g.2.map Stay.span, s.covers minute = true) ↔
              attends r minute g = true := by
            simp [attends, hrole, Span.covers, Stay.span, Interval.covers]
          simp only [hcover] at hg
          simpa [Function.comp_def, hrole] using hg
        · simp [Function.comp_def, hrole, attends]
      rw [List.flatMap_cons, List.countP_append, hgroup, ih fun k hk => hsorted k (by simp [hk]),
        List.countP_cons]
      omega

theorem mem_attendances_iff {g : (MemberId × Role) × List Stay} : g ∈ t.attendances d ↔
    g.2 ≠ [] ∧ g.2 = (sortBy Stay.key (t.stays.filter fun s => s.interval.day = d)).filter
      fun s => s.person = g.1 :=
  mem_stretches_iff Stay.personRank_injective (Stay.labelsAscend_person _)

theorem mem_present_iff_attends {r : Role} {minute : Int} {m : MemberId} :
    m ∈ t.present d r minute ↔ ∃ g ∈ t.attendances d, attends r minute g ∧ g.1.1 = m := by
  rw [mem_present]
  constructor
  · rintro ⟨s, hs, rfl, rfl, hday, hcovers⟩
    have hgroup : s ∈ (sortBy Stay.key (t.stays.filter fun s => decide (s.interval.day = d))).filter
        fun u => u.person = s.person := by
      simp [mem_sortBy, hs, hday]
    refine ⟨(s.person, _), mem_attendances_iff.mpr ⟨List.ne_nil_of_mem hgroup, rfl⟩, ?_, rfl⟩
    simp only [attends, Bool.and_eq_true, decide_eq_true_eq, List.any_eq_true]
    exact ⟨rfl, s, hgroup, hcovers⟩
  · rintro ⟨g, hg, hattends, rfl⟩
    simp only [attends, Bool.and_eq_true, decide_eq_true_eq, List.any_eq_true] at hattends
    obtain ⟨hrole, s, hs, hcovers⟩ := hattends
    rw [(mem_attendances_iff.mp hg).2, List.mem_filter, mem_sortBy, List.mem_filter] at hs
    simp only [decide_eq_true_eq] at hs
    obtain ⟨⟨hmem, hday⟩, hperson⟩ := hs
    exact ⟨s, hmem, congrArg Prod.fst hperson, (congrArg Prod.snd hperson).trans hrole, hday,
      hcovers⟩

/-- At every minute the spans of a role are as many as its members that are there. -/
theorem countP_spans_eq_card_present (r : Role) (minute : Int) :
    (t.spans d).countP (fun s => decide (s.1 = r) && s.2.covers minute) =
      (t.present d r minute).card := by
  have hnodup : (((t.attendances d).filter (attends r minute)).map fun g => g.1.1).Nodup := by
    have hgroups := pairwise_stretches Stay.personRank_injective
      (Stay.labelsAscend_person (t.stays.filter fun s => decide (s.interval.day = d)))
    rw [List.Nodup, List.pairwise_map]
    refine (hgroups.filter (attends r minute)).imp_of_mem ?_
    intro g k hg hk hgk hmember
    have hrole : ∀ x, x ∈ (t.attendances d).filter (attends r minute) → x.1.2 = r := by
      intro x hx
      exact role_of_attends (List.mem_filter.mp hx).2
    exact hgk.2 (Prod.ext hmember ((hrole g hg).trans (hrole k hk).symm))
  have hset : t.present d r minute =
      (((t.attendances d).filter (attends r minute)).map fun g => g.1.1).toFinset := by
    ext m
    simp only [mem_present_iff_attends, List.mem_toFinset, List.mem_map, List.mem_filter, and_assoc]
  rw [countP_spans_eq_countP_attends, hset, List.toFinset_card_of_nodup hnodup, List.length_map,
    List.countP_eq_length_filter]

end Team

end NurseryRota
