import NurseryRota.Proofs.ReportMeaning
import NurseryRota.Proofs.ReportReadBack

/-!
# The range of a report

Whatever a validation reports can be written and read back.  The windows are those of a day, as
overlaps lie within shifts and shortages between minutes of the day.  The counts have 32 bits: a
need that has more is a fault, and fewer staff than are needed, or missing, are fewer than that.
-/

namespace NurseryRota

theorem Bounded.lt_of_add_eq_ok {bits a b n : Nat} (h : add bits a b = .ok n) :
    n < capacity bits := by
  unfold add at h
  split at h
  · next hfits =>
      cases h
      exact hfits
  · cases h

/-! ## Needs -/

namespace Rules

variable {rules : Rules} {children : ByBand Nat} {need : Nat}

theorem neededPerBand_lt (h : rules.neededPerBand children = .ok need) : need < capacity 32 := by
  refine invariant_of_foldlM (P := (· < capacity 32)) (capacity_pos 32) ?_ h
  intro sum b sum' _ hband
  obtain ⟨_, -, hsum⟩ := bind_eq_ok_iff.mp hband
  exact Bounded.lt_of_add_eq_ok hsum

theorem neededPooled_lt (h : rules.neededPooled children = .ok need) : need < capacity 32 := by
  simp only [neededPooled, bind_eq_ok_iff] at h
  obtain ⟨_, -, _, -, quotient, -, hneed⟩ := h
  cases hneed
  exact Nat.mod_lt quotient (capacity_pos 32)

theorem staffNeeded_lt {policy : Policy} (h : rules.staffNeeded policy children = .ok need) :
    need < capacity 32 := by
  cases policy with
  | perBand => exact neededPerBand_lt h
  | pooled => exact neededPooled_lt h

end Rules

/-! ## Findings -/

namespace Finding

section Shortages

variable {project : ProjectId} {rules : Rules} {policy : Policy} {d : Weekday} {p : Shortage}
  {s : Slice}

theorem inRange_ofSlice (hs : s.Drawn rules policy d) (hshort : s.short = true) :
    (shortage (.ofSlice project s)).InRange := by
  have hneed : s.required < capacity 32 := Rules.staffNeeded_lt hs.required
  have hfewer : s.present.staff < s.required := by simpa [Slice.short] using hshort
  exact .shortage hs.window hneed (hfewer.trans hneed) ((Nat.sub_le _ _).trans_lt hneed)

theorem inRange_extend (hp : (shortage p).InRange) (hs : s.Drawn rules policy d)
    (hmeets : p.window.stop = s.window.start) : (shortage (p.extend s)).InRange := by
  obtain _ | ⟨hwindow, hrequired, hactual, hshortfall⟩ := hp
  have hneed : s.required < capacity 32 := Rules.staffNeeded_lt hs.required
  have hgap : s.required - s.present.staff < capacity 32 := (Nat.sub_le _ _).trans_lt hneed
  exact .shortage (Shortage.valid_extend hwindow hs.window hmeets) (max_lt hrequired hneed)
    ((Nat.min_le_left _ _).trans_lt hactual) (max_lt hshortfall hgap)

end Shortages

theorem inRange_of_conflictWith {a b : Shift} {c : Conflict} (ha : a.interval.Valid)
    (hb : b.interval.Valid) (h : a.conflictWith b = some c) : (conflict c).InRange := by
  obtain ⟨overlap, hoverlap, rfl⟩ := Option.map_eq_some_iff.mp h
  exact .conflict (Interval.valid_of_intersection ha hb hoverlap)

theorem inRange_of_pairConflict {a b : Shift} {c : Conflict} (ha : a.interval.Valid)
    (hb : b.interval.Valid) (h : pairConflict a b = some c) : (conflict c).InRange := by
  obtain ⟨-, ⟨-, h⟩ | ⟨-, h⟩⟩ := pairConflict_eq_some_iff.mp h
  · exact inRange_of_conflictWith ha hb h
  · exact inRange_of_conflictWith hb ha h

end Finding

theorem Team.inRange_of_mem_findings {t : Team} {project : ProjectId} {rules : Rules}
    {policy : Policy} (hvalid : ∀ s ∈ t.stays, s.interval.Valid) :
    ∀ f ∈ t.findings project rules policy, f.InRange := by
  intro f hf
  obtain ⟨c, hc, rfl⟩ | ⟨d, v, hv, rfl⟩ := mem_findings.mp hf
  · obtain ⟨a, ha, b, hb, hconflict⟩ := exists_pair_of_mem_conflicts hc
    have hstaff := valid_staff_of_stays hvalid
    exact Finding.inRange_of_pairConflict (hstaff a ha) (hstaff b hb) hconflict
  · unfold shortagesOn at hv
    split at hv
    · next vs hvs =>
        exact forall_mem_shortages hvs (fun _ hs hshort => Finding.inRange_ofSlice hs hshort)
          (fun _ _ hs _ hmeets hp => Finding.inRange_extend hp hs hmeets) v hv
    · cases hv

/-! ## Reports -/

theorem Snapshot.inRange_of_validate {s : Snapshot} {roster : Roster} {rules : Rules}
    {policy : Policy} {report : Report} (h : s.validate roster rules policy = .ok report) :
    report.InRange := by
  obtain ⟨-, rfl⟩ := validate_eq_ok_iff.mp h
  intro f hf
  obtain ⟨g, hg, hteam⟩ := mem_findings.mp (mem_sortBy.mp hf)
  exact Team.inRange_of_mem_findings (valid_stays_of_mem_groups hg) f hteam

end NurseryRota
