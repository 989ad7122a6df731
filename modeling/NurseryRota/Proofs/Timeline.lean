import NurseryRota.Proofs.Outcome
import NurseryRota.Proofs.StableOrder
import NurseryRota.Staffing.Shortage

/-!
# The timeline of a day

What a timeline is made of: one slice for every two neighbouring minutes of change, with the
headcount that the changes up to its start leave behind.
-/

namespace NurseryRota

theorem Interval.between_eq_ok_iff {d : Weekday} {start stop : Int} {w : Interval} :
    Interval.between d start stop = .ok w ↔ w = ⟨d, start, stop⟩ ∧ w.Valid := by
  unfold Interval.between
  dsimp only
  split
  · next h =>
      constructor
      · rintro ⟨⟩
        exact ⟨rfl, h⟩
      · rintro ⟨rfl, -⟩
        rfl
  · next h =>
      constructor
      · rintro ⟨⟩
      · rintro ⟨rfl, hvalid⟩
        exact absurd hvalid h

section Slices

variable {rules : Rules} {policy : Policy} {d : Weekday} {before : Headcount}

theorem slicesFrom_singleton_eq_ok_iff {g : Int × List Change} {slices : List Slice} :
    slicesFrom rules policy d before [g] = .ok slices ↔
      slices = [] ∧ ∃ present, g.2.foldlM Change.apply before = .ok present := by
  rw [slicesFrom]
  simp only [bind_eq_ok_iff, pure, Except.pure, Except.ok.injEq]
  constructor
  · rintro ⟨present, hpresent, hslices⟩
    exact ⟨hslices.symm, present, hpresent⟩
  · rintro ⟨hslices, present, hpresent⟩
    exact ⟨present, hpresent, hslices.symm⟩

theorem slicesFrom_cons_cons_eq_ok_iff {g h : Int × List Change}
    {rest : List (Int × List Change)} {slices : List Slice} :
    slicesFrom rules policy d before (g :: h :: rest) = .ok slices ↔
      ∃ present need tail, g.2.foldlM Change.apply before = .ok present ∧
        (⟨d, g.1, h.1⟩ : Interval).Valid ∧
        rules.staffNeeded policy present.children = .ok need ∧
        slicesFrom rules policy d present (h :: rest) = .ok tail ∧
        slices = ⟨⟨d, g.1, h.1⟩, present, need⟩ :: tail := by
  rw [slicesFrom]
  simp only [bind_eq_ok_iff, Interval.between_eq_ok_iff, pure, Except.pure, Except.ok.injEq]
  constructor
  · rintro ⟨present, hpresent, window, ⟨rfl, hvalid⟩, need, hneed, tail, htail, hslices⟩
    exact ⟨present, need, tail, hpresent, hvalid, hneed, htail, hslices.symm⟩
  · rintro ⟨present, need, tail, hpresent, hvalid, hneed, htail, hslices⟩
    exact ⟨present, hpresent, _, ⟨rfl, hvalid⟩, need, hneed, tail, htail, hslices.symm⟩

/-- What is drawn in every slice of a day: a window of the day, and the staff needed in it. -/
structure Slice.Drawn (rules : Rules) (policy : Policy) (d : Weekday) (s : Slice) : Prop where
  day : s.window.day = d
  window : s.window.Valid
  required : rules.staffNeeded policy s.present.children = .ok s.required

theorem drawn_of_mem_slicesFrom {groups : List (Int × List Change)} {slices : List Slice}
    (h : slicesFrom rules policy d before groups = .ok slices) :
    ∀ s ∈ slices, s.Drawn rules policy d := by
  induction groups generalizing before slices with
  | nil =>
      cases h
      simp
  | cons g rest ih =>
      cases rest with
      | nil =>
          rw [(slicesFrom_singleton_eq_ok_iff.mp h).1]
          simp
      | cons next rest =>
          obtain ⟨present, need, tail, -, hvalid, hneed, htail, rfl⟩ :=
            slicesFrom_cons_cons_eq_ok_iff.mp h
          intro s hs
          rcases List.mem_cons.mp hs with rfl | hs
          · exact ⟨rfl, hvalid, hneed⟩
          · exact ih htail s hs

end Slices

end NurseryRota
