import NurseryRota.Edit
import NurseryRota.Proofs.Tables

/-!
# The history of a rota

The canonical edits of a rota build it from nothing, provided that its bookings stand under their
own ids.  Every rota that edits build is one of these, since an edit stores a booking under no
other id.
-/

namespace NurseryRota.Rota

theorem keyed_apply {r : Rota} (h : r.shifts.Keyed) (e : Edit) : (r.apply e).shifts.Keyed := by
  cases e with
  | memberRegistered id m => exact h
  | memberRemoved id => exact h
  | shiftAdded b => exact h.insert b
  | shiftUpdated b => exact h.insert b
  | shiftRemoved id => exact h.erase id

theorem keyed_applyAll {r : Rota} (h : r.shifts.Keyed) (edits : List Edit) :
    (r.applyAll edits).shifts.Keyed := by
  induction edits generalizing r with
  | nil => exact h
  | cons e edits ih => exact ih (keyed_apply h e)

theorem keyed_ofHistory (edits : List Edit) : (ofHistory edits).shifts.Keyed :=
  keyed_applyAll Table.Keyed.empty edits

theorem applyAll_memberRegistered (entries : List (Uuid × Enrolment)) (r : Rota) :
    r.applyAll (entries.map fun e => .memberRegistered e.1 e.2) =
      { r with roster := entries.foldl (fun t e => t.insert e.1 e.2) r.roster } := by
  induction entries generalizing r with
  | nil => rfl
  | cons e entries ih => exact ih (r.register e.1 e.2)

theorem applyAll_shiftAdded {entries : List (Uuid × Booking)} (hids : ∀ e ∈ entries, e.2.id = e.1)
    (r : Rota) :
    r.applyAll ((entries.map Prod.snd).map .shiftAdded) =
      { r with shifts := entries.foldl (fun t e => t.insert e.1 e.2) r.shifts } := by
  induction entries generalizing r with
  | nil => rfl
  | cons e entries ih =>
      have htail := ih (fun f hf => hids f (List.mem_cons_of_mem e hf)) (r.store e.2)
      have hid := hids e (by simp)
      unfold store at htail
      rw [hid] at htail
      change (r.store e.2).applyAll _ = _
      unfold store
      rw [hid]
      exact htail

/-- The canonical edits build the rota from nothing. -/
theorem ofHistory_history {r : Rota} (h : r.shifts.Keyed) : ofHistory r.history = r := by
  have hids : ∀ e ∈ r.shifts.entries, e.2.id = e.1 := fun e he =>
    h e.1 e.2 (Table.get?_eq_some_iff.mpr he)
  unfold ofHistory history Table.values
  rw [applyAll_append, applyAll_memberRegistered, applyAll_shiftAdded hids]
  have hroster : r.roster.entries.foldl (fun t e => t.insert e.1 e.2) empty.roster = r.roster :=
    Table.foldl_insert_entries r.roster
  have hshifts : r.shifts.entries.foldl (fun t e => t.insert e.1 e.2) empty.shifts = r.shifts :=
    Table.foldl_insert_entries r.shifts
  rw [hroster]
  dsimp only
  rw [hshifts]

theorem ofHistory_append (es fs : List Edit) :
    ofHistory (es ++ fs) = (ofHistory es).applyAll fs :=
  applyAll_append empty es fs

end NurseryRota.Rota
