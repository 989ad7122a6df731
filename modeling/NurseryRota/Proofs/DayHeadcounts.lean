import NurseryRota.Proofs.MergedSpans

/-!
# The headcounts of a day

The slices of a timeline lie end to end, and at every minute of a slice its headcount is the number
of members there in each role.  A slice begins with the changes of its first minute and nothing
changes within it, so who is there are those who have come by then less those who have left.
-/

namespace NurseryRota

/-- The slices lie end to end from one minute to another, and each tells the truth about all of its
minutes. -/
def Slice.Tiles (told : Slice → Int → Prop) : Int → List Slice → Int → Prop
  | lo, [], hi => lo = hi
  | lo, s :: rest, hi =>
    s.window.start = lo ∧ lo < s.window.stop ∧ (∀ m, lo ≤ m → m < s.window.stop → told s m) ∧
      Tiles told s.window.stop rest hi

theorem Slice.Tiles.imp {told told' : Slice → Int → Prop} (h : ∀ s m, told s m → told' s m) :
    ∀ {slices : List Slice} {lo hi : Int}, Tiles told lo slices hi → Tiles told' lo slices hi
  | [], _, _, htiles => htiles
  | _ :: _, _, _, ⟨hstart, hlong, htold, hrest⟩ =>
    ⟨hstart, hlong, fun m hlo hm => h _ m (htold m hlo hm), hrest.imp h⟩

theorem Slice.Tiles.of_mem {told : Slice → Int → Prop} {slices : List Slice} {lo hi : Int}
    (h : Tiles told lo slices hi) : ∀ s ∈ slices, s.window.start < s.window.stop ∧
      ∀ m, s.window.start ≤ m → m < s.window.stop → told s m := by
  induction slices generalizing lo with
  | nil => simp
  | cons s rest ih =>
      obtain ⟨rfl, hlong, htold, hrest⟩ := h
      intro u hu
      rcases List.mem_cons.mp hu with rfl | hu
      · exact ⟨hlong, htold⟩
      · exact ih hrest u hu

namespace Change

variable {after : Headcount} {cs : List Change}

/-- Those who have come by a minute, and those who have left by it. -/
def comeBy (r : Role) (minute : Int) (cs : List Change) : Nat :=
  arrivalsOf r (cs.filter fun c => c.minute ≤ minute)

def leftBy (r : Role) (minute : Int) (cs : List Change) : Nat :=
  departuresOf r (cs.filter fun c => c.minute ≤ minute)

/-- At the minute the headcount is made of the changes up to it. -/
def Counts (cs : List Change) (h : Headcount) (minute : Int) : Prop :=
  ∀ r, h.count r + leftBy r minute cs = comeBy r minute cs

theorem counts_of_leads {later : List Change} {minute : Int} (hleads : Leads .nobody cs after)
    (hcs : ∀ c ∈ cs, c.minute ≤ minute) (hlater : ∀ c ∈ later, minute < c.minute) :
    Counts (cs ++ later) after minute := by
  have hfilter : (cs ++ later).filter (fun c => decide (c.minute ≤ minute)) = cs := by
    rw [List.filter_append, List.filter_eq_self.mpr fun c hc => by simpa using hcs c hc,
      List.filter_eq_nil_iff.mpr fun c hc => by simpa using hlater c hc, List.append_nil]
  intro r
  have hcount := hleads.count r
  have hnobody : Headcount.nobody.count r = 0 := by
    cases r with
    | staff => rfl
    | child b => cases b <;> rfl
  unfold leftBy comeBy
  rw [hfilter]
  omega

end Change

section Slices

variable {rules : Rules} {policy : Policy} {d : Weekday} {before : Headcount}

/-- What a slice tells of a minute, by the changes of the day. -/
structure Slice.Told (rules : Rules) (policy : Policy) (d : Weekday) (cs : List Change)
    (s : Slice) (minute : Int) : Prop where
  day : s.window.day = d
  counts : Change.Counts cs s.present minute
  need : rules.staffNeeded policy s.present.children = .ok s.required

theorem tiles_slicesFrom {done : List Change} {g : Int × List Change}
    {groups : List (Int × List Change)} {slices : List Slice}
    (hslices : slicesFrom rules policy d before (g :: groups) = .ok slices)
    (hbefore : Change.Leads .nobody done before) (hdone : ∀ c ∈ done, c.minute < g.1)
    (hlabels : ∀ k ∈ g :: groups, ∀ c ∈ k.2, c.minute = k.1)
    (hascend : (g :: groups).Pairwise fun k l => k.1 < l.1) :
    ∃ hi, Slice.Tiles (Slice.Told rules policy d (done ++ (g :: groups).flatMap Prod.snd))
      g.1 slices hi ∧ ∀ k ∈ g :: groups, k.1 ≤ hi := by
  -- The changes that are done lead to the headcount before the slice; its own come at its first
  -- minute, so until the next group it counts them all.
  induction groups generalizing done g before slices with
  | nil =>
      rw [(slicesFrom_singleton_eq_ok_iff.mp hslices).1]
      exact ⟨g.1, rfl, by simp⟩
  | cons next rest ih =>
      obtain ⟨present, need, tail, hpresent, hwindow, hneed, htail, rfl⟩ :=
        slicesFrom_cons_cons_eq_ok_iff.mp hslices
      obtain ⟨hfirst, hascendTail⟩ := List.pairwise_cons.mp hascend
      have hnext : g.1 < next.1 := hfirst next (by simp)
      have hleads := hbefore.append (Change.leads_of_foldlM hpresent)
      have hby : ∀ c ∈ done ++ g.2, c.minute ≤ g.1 := by
        intro c hc
        rcases List.mem_append.mp hc with hc | hc
        · exact Int.le_of_lt (hdone c hc)
        · exact Int.le_of_eq (hlabels g (by simp) c hc)
      have hlabelsTail : ∀ k ∈ next :: rest, ∀ c ∈ k.2, c.minute = k.1 := fun k hk =>
        hlabels k (List.mem_cons_of_mem g hk)
      have hlater : ∀ c ∈ (next :: rest).flatMap Prod.snd, next.1 ≤ c.minute := by
        intro c hc
        obtain ⟨k, hk, hck⟩ := List.mem_flatMap.mp hc
        rw [hlabelsTail k hk c hck]
        rcases List.mem_cons.mp hk with rfl | hk
        · exact Int.le_refl _
        · exact Int.le_of_lt ((List.pairwise_cons.mp hascendTail).1 k hk)
      obtain ⟨hi, htiles, hhi⟩ := ih htail hleads
        (fun c hc => Int.lt_of_le_of_lt (hby c hc) hnext) hlabelsTail hascendTail
      have hall : done ++ g.2 ++ (next :: rest).flatMap Prod.snd =
          done ++ (g :: next :: rest).flatMap Prod.snd := by
        rw [List.flatMap_cons (x := g), List.append_assoc]
      rw [hall] at htiles
      refine ⟨hi, ⟨rfl, hnext, ?_, htiles⟩, ?_⟩
      · intro m hlo hm
        refine ⟨rfl, ?_, hneed⟩
        rw [← hall]
        exact Change.counts_of_leads hleads (fun c hc => Int.le_trans (hby c hc) hlo)
          fun c hc => Int.lt_of_lt_of_le hm (hlater c hc)
      · intro k hk
        rcases List.mem_cons.mp hk with rfl | hk
        · exact Int.le_trans (Int.le_of_lt hnext) (hhi next (by simp))
        · exact hhi k hk

end Slices

namespace Change

/-- Of spans that are longer than nothing, those that have come and not left are those that cover
the minute. -/
theorem comeBy_ends {cs : List Change} {spans : List (Role × Span)}
    (hperm : cs.Perm (spans.flatMap ends)) (hspans : ∀ s ∈ spans, s.2.start < s.2.stop)
    (r : Role) (minute : Int) :
    comeBy r minute cs =
      (spans.countP fun s => decide (s.1 = r) && s.2.covers minute) + leftBy r minute cs := by
  have hcome : comeBy r minute cs =
      spans.countP fun s => decide (s.1 = r) && decide (s.2.start ≤ minute) := by
    unfold comeBy arrivalsOf
    rw [List.countP_filter, hperm.countP_eq, countP_ends]
    simp
  have hleft : leftBy r minute cs =
      spans.countP fun s => decide (s.1 = r) && decide (s.2.stop ≤ minute) := by
    unfold leftBy departuresOf
    rw [List.countP_filter, hperm.countP_eq, countP_ends]
    simp
  rw [hcome, hleft]
  clear hcome hleft hperm
  induction spans with
  | nil => rfl
  | cons s spans ih =>
      have hs := hspans s (by simp)
      have hrest := ih fun t ht => hspans t (by simp [ht])
      simp only [List.countP_cons, hrest, Span.covers]
      by_cases hrole : s.1 = r
      · simp only [hrole, decide_true, Bool.true_and, Bool.and_eq_true, decide_eq_true_eq]
        split <;> split <;> split <;> omega
      · simp [hrole]

end Change

namespace Team

variable {t : Team} {d : Weekday} {rules : Rules} {policy : Policy}

/-- What a slice of a team's day tells of a minute. -/
structure SliceTold (t : Team) (d : Weekday) (rules : Rules) (policy : Policy) (s : Slice)
    (minute : Int) : Prop where
  day : s.window.day = d
  count : ∀ r, s.present.count r = (t.present d r minute).card
  need : rules.staffNeeded policy s.present.children = .ok s.required

theorem present_eq_empty {r : Role} {minute : Int}
    (h : ∀ s ∈ t.spans d, minute < s.2.start ∨ s.2.stop ≤ minute) : t.present d r minute = ∅ := by
  rw [← Finset.card_eq_zero, ← countP_spans_eq_card_present, List.countP_eq_zero]
  intro s hs
  have := h s hs
  simp only [Bool.and_eq_true, decide_eq_true_eq, Span.covers_iff, not_and]
  omega

/-- The slices of a day cover all minutes at which somebody is there. -/
theorem coverage_tiles (hvalid : ∀ s ∈ t.stays, s.interval.Valid) {slices : List Slice}
    (hslices : t.coverage rules policy d = .ok slices) :
    ∃ lo hi, Slice.Tiles (t.SliceTold d rules policy) lo slices hi ∧
      ∀ m, (m < lo ∨ hi ≤ m) → ∀ r, t.present d r m = ∅ := by
  have hfits := fits_of_mem_spans d hvalid
  have hlabels := minute_of_mem_changes t d
  have hascend := changes_ascend t d
  have hall := flatMap_changes t d
  have hends : ∀ s ∈ t.spans d, (∃ g ∈ t.changes d, s.2.start = g.1) ∧
      ∃ g ∈ t.changes d, s.2.stop = g.1 := fun s hs =>
    ⟨exists_mem_changes_iff.mpr ⟨s, hs, Or.inl rfl⟩, exists_mem_changes_iff.mpr ⟨s, hs, Or.inr rfl⟩⟩
  unfold coverage at hslices
  cases hchanges : t.changes d with
  | nil =>
      rw [hchanges] at hslices hends
      cases hslices
      refine ⟨0, 0, rfl, fun m _ r => present_eq_empty fun s hs => ?_⟩
      obtain ⟨⟨g, hg, -⟩, -⟩ := hends s hs
      exact absurd hg List.not_mem_nil
  | cons g groups =>
      rw [hchanges] at hslices hlabels hascend hall hends
      have hnobody : Change.Leads .nobody [] .nobody := ⟨fun _ => rfl, Nat.le_refl _⟩
      obtain ⟨hi, htiles, hhi⟩ := tiles_slicesFrom hslices hnobody (by simp) hlabels hascend
      refine ⟨g.1, hi, htiles.imp ?_, ?_⟩
      · intro s m htold
        refine ⟨htold.day, ?_, htold.need⟩
        intro r
        have hcount := htold.counts r
        rw [List.nil_append, hall, Change.comeBy_ends (sortBy_perm Change.key _)
          (fun u hu => (hfits u hu).2.1), countP_spans_eq_card_present] at hcount
        omega
      · intro m hm r
        apply present_eq_empty
        intro s hs
        obtain ⟨⟨k, hk, hstart⟩, ⟨l, hl, hstop⟩⟩ := hends s hs
        have hkg : g.1 ≤ k.1 := by
          rcases List.mem_cons.mp hk with rfl | hk
          · exact Int.le_refl _
          · exact Int.le_of_lt ((List.pairwise_cons.mp hascend).1 k hk)
        have hlhi := hhi l hl
        omega

end Team

end NurseryRota
