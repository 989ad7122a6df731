import NurseryRota.Proofs.PresenceSpans

/-!
# The canonical form of spans

Merged spans are the maximal stretches of the minutes that they cover, in their order.  So nothing is
left in them of the spans that they come from but the covered minutes: whatever overlaps, touches or
lies within another, two lists that cover the same minutes are merged into one list, and a merged list
is merged into itself.
-/

namespace NurseryRota.Span

variable {spans others : List Span} {s : Span}

/-! ## Lists of spans with gaps between them -/

theorem Apart.ordered (hapart : Apart spans) (hlong : ∀ s ∈ spans, s.start < s.stop) :
    Ordered spans := by
  refine hapart.imp_of_mem ?_
  intro a b ha _ hab
  have := hlong a ha
  omega

/-- Spans with gaps between them are told by the minutes that they cover. -/
theorem Apart.eq_of_covers (hspans : Apart spans) (hlong : ∀ s ∈ spans, s.start < s.stop)
    (hothers : Apart others) (hlong' : ∀ s ∈ others, s.start < s.stop)
    (hcovers : ∀ minute, (∃ s ∈ others, s.covers minute) ↔ ∃ s ∈ spans, s.covers minute) :
    others = spans := by
  -- Starts ascend without a tie, so that the spans, which are the maximal stretches, tell the list.
  have hascends : ∀ {xs : List Span}, Apart xs → (∀ s ∈ xs, s.start < s.stop) →
      xs.Pairwise fun a b => (⟨[a.start]⟩ : SortKey) ≤ ⟨[b.start]⟩ ∧
        (⟨[a.start]⟩ : SortKey) ≠ ⟨[b.start]⟩ := by
    intro xs hapart hlong
    refine hapart.imp_of_mem ?_
    intro a b ha _ hab
    have := hlong a ha
    rw [SortKey.singleton_le_singleton]
    simp only [ne_eq, SortKey.mk.injEq, List.cons.injEq, and_true]
    omega
  refine eq_of_mem_iff (hascends hothers hlong') (hascends hspans hlong) ?_
  intro s
  rw [hothers.mem_iff hlong', hspans.mem_iff hlong]
  simp only [hcovers]

/-! ## Merging -/

/-- A maximal stretch of the minutes of spans begins where one of them does. -/
theorem IsMaximal.exists_start (hs : s.IsMaximal fun minute => ∃ u ∈ spans, u.covers minute) :
    ∃ u ∈ spans, u.start = s.start := by
  obtain ⟨u, hu, hcovers⟩ := hs.throughout s.start (Int.le_refl _) hs.nonempty
  refine ⟨u, hu, ?_⟩
  rw [covers_iff] at hcovers
  by_contra hne
  exact hs.before ⟨u, hu, covers_iff.mpr (by omega)⟩

theorem IsMaximal.exists_stop (hs : s.IsMaximal fun minute => ∃ u ∈ spans, u.covers minute) :
    ∃ u ∈ spans, u.stop = s.stop := by
  have hlong := hs.nonempty
  obtain ⟨u, hu, hcovers⟩ := hs.throughout (s.stop - 1) (by omega) (by omega)
  refine ⟨u, hu, ?_⟩
  rw [covers_iff] at hcovers
  by_contra hne
  exact hs.after ⟨u, hu, covers_iff.mpr (by omega)⟩

theorem merge_eq_of_covers (hspans : Ordered spans) (hlong : ∀ s ∈ spans, s.start < s.stop)
    (hothers : Ordered others) (hlong' : ∀ s ∈ others, s.start < s.stop)
    (hcovers : ∀ minute, (∃ s ∈ others, s.covers minute) ↔ ∃ s ∈ spans, s.covers minute) :
    merge others = merge spans := by
  refine (apart_merge hspans.starts).eq_of_covers (lt_of_mem_merge hlong)
    (apart_merge hothers.starts) (lt_of_mem_merge hlong') ?_
  intro minute
  rw [covers_merge hothers.starts, covers_merge hspans.starts]
  exact hcovers minute

/-- Spans in their order are merged into their canonical form: non-empty spans with gaps between them
that cover the same minutes and begin and end where spans did.  It is the same for all lists that cover
these minutes, and its own. -/
theorem merge_canonical (hordered : Ordered spans) (hlong : ∀ s ∈ spans, s.start < s.stop) :
    (∀ s ∈ merge spans, s.start < s.stop) ∧ Apart (merge spans) ∧
      (∀ minute, (∃ s ∈ merge spans, s.covers minute) ↔ ∃ s ∈ spans, s.covers minute) ∧
      (∀ s ∈ merge spans, (∃ u ∈ spans, u.start = s.start) ∧ ∃ u ∈ spans, u.stop = s.stop) ∧
      (∀ others, Ordered others → (∀ s ∈ others, s.start < s.stop) →
        (∀ minute, (∃ s ∈ others, s.covers minute) ↔ ∃ s ∈ spans, s.covers minute) →
          merge others = merge spans) ∧
      merge (merge spans) = merge spans := by
  have hapart := apart_merge hordered.starts
  have hlong' := lt_of_mem_merge hlong
  have hcovers := covers_merge hordered.starts
  refine ⟨hlong', hapart, hcovers, ?_, ?_, ?_⟩
  · intro s hs
    have hmaximal := (mem_merge_iff hordered.starts hlong).mp hs
    exact ⟨hmaximal.exists_start, hmaximal.exists_stop⟩
  · intro others hothers hlong''
    exact merge_eq_of_covers hordered hlong hothers hlong''
  · exact merge_eq_of_covers hordered hlong (hapart.ordered hlong') hlong' hcovers

/-- A shift within another, and one that begins where it ends, make one span; the next one does not. -/
theorem merge_canonical_nested :
    let spans : List Span := [⟨480, 540⟩, ⟨480, 720⟩, ⟨600, 660⟩, ⟨720, 900⟩, ⟨901, 960⟩]
    let others : List Span := [⟨480, 900⟩, ⟨901, 960⟩]
    Ordered spans ∧ (∀ s ∈ spans, s.start < s.stop) ∧ merge others = merge spans ∧
      merge spans = others := by
  intro spans others
  have hordered : Ordered spans := by
    simp [spans, Ordered]
  have hlong : ∀ s ∈ spans, s.start < s.stop := by
    simp [spans]
  have hmerged : merge others = merge spans := by
    refine (merge_canonical hordered hlong).2.2.2.2.1 others ?_ ?_ ?_
    · simp [others, Ordered]
    · simp [others]
    · intro minute
      simp only [others, spans, List.exists_mem_cons_iff, covers_iff]
      simp
      omega
  exact ⟨hordered, hlong, hmerged, hmerged.symm.trans (by decide)⟩

end NurseryRota.Span
