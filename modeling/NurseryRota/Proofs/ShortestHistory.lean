import NurseryRota.Proofs.RotaHistory
import NurseryRota.Proofs.StableOrder
import NurseryRota.Store

/-!
# The shortest history

An edit brings in one entry at most, so a list of edits that builds a rota is no shorter than the
rota has entries.  The history has one edit for each, in the order of identifiers, whatever the
order in which the entries are listed before.  Every call of a store does what some edits do, its
records included, whatever becomes of them; so a store holds at every moment what edits build, and
its history is faithful.
-/

namespace NurseryRota

universe u

namespace Table

variable {α : Type u}

def entryKey (e : Uuid × α) : SortKey := ⟨[e.1.rank]⟩

theorem length_insertEntry_le (k : Uuid) (v : α) (entries : List (Uuid × α)) :
    (insertEntry k v entries).length ≤ entries.length + 1 := by
  induction entries with
  | nil => exact Nat.le_refl 1
  | cons e rest ih =>
      unfold insertEntry
      split
      · exact Nat.le_refl _
      · split
        · exact Nat.le_succ _
        · exact Nat.succ_le_succ ih

theorem size_insert_le (t : Table α) (k : Uuid) (v : α) : (t.insert k v).size ≤ t.size + 1 :=
  length_insertEntry_le k v t.entries

theorem size_erase_le (t : Table α) (k : Uuid) : (t.erase k).size ≤ t.size :=
  List.length_filter_le _ _

theorem key_lt_of_lt {a b : Uuid} (h : a.toNat < b.toNat) :
    (⟨[a.rank]⟩ : SortKey) ≤ ⟨[b.rank]⟩ ∧ (⟨[a.rank]⟩ : SortKey) ≠ ⟨[b.rank]⟩ := by
  have hrank : a.rank < b.rank := Int.ofNat_lt.mpr h
  refine ⟨SortKey.singleton_le_singleton.mpr (Int.le_of_lt hrank), ?_⟩
  intro heq
  have hsame : a.rank = b.rank := by simpa using heq
  omega

theorem entries_ascend (t : Table α) :
    t.entries.Pairwise fun a b => entryKey a ≤ entryKey b ∧ entryKey a ≠ entryKey b :=
  t.ascending.imp key_lt_of_lt

theorem Keyed.values_ascend {t : Table Booking} (h : t.Keyed) :
    t.values.Pairwise fun a b => a.key ≤ b.key ∧ a.key ≠ b.key := by
  have hkey : ∀ e ∈ t.entries, e.2.key = entryKey e := by
    intro e he
    unfold Booking.key entryKey
    rw [h e.1 e.2 (get?_eq_some_iff.mpr he)]
  unfold values
  rw [List.pairwise_map]
  refine t.entries_ascend.imp_of_mem ?_
  intro a b ha hb hab
  rw [hkey a ha, hkey b hb]
  exact hab

end Table

namespace Rota

def entryCount (r : Rota) : Nat := r.memberCount + r.shiftCount

theorem entryCount_apply_le (r : Rota) (e : Edit) :
    (r.apply e).entryCount ≤ r.entryCount + 1 := by
  have hstore : ∀ b, (r.store b).entryCount ≤ r.entryCount + 1 := fun b =>
    Nat.add_le_add_left (r.shifts.size_insert_le b.id b) r.memberCount
  cases e with
  | memberRegistered id m =>
      have hsize := r.roster.size_insert_le id m
      change (r.roster.insert id m).size + r.shifts.size ≤ r.roster.size + r.shifts.size + 1
      omega
  | memberRemoved id =>
      have hsize := r.roster.size_erase_le id
      change (r.roster.erase id).size + r.shifts.size ≤ r.roster.size + r.shifts.size + 1
      omega
  | shiftAdded b => exact hstore b
  | shiftUpdated b => exact hstore b
  | shiftRemoved id =>
      have hsize := r.shifts.size_erase_le id
      change r.roster.size + (r.shifts.erase id).size ≤ r.roster.size + r.shifts.size + 1
      omega

theorem entryCount_applyAll_le (r : Rota) (edits : List Edit) :
    (r.applyAll edits).entryCount ≤ r.entryCount + edits.length := by
  induction edits generalizing r with
  | nil => exact Nat.le_refl _
  | cons e edits ih =>
      have hfirst := r.entryCount_apply_le e
      have hrest := ih (r.apply e)
      change ((r.apply e).applyAll edits).entryCount ≤ _
      rw [List.length_cons]
      omega

/-- No list of edits that builds a rota is shorter than its history. -/
theorem length_history_le {r : Rota} {edits : List Edit} (h : ofHistory edits = r) :
    r.history.length ≤ edits.length := by
  have hcount := entryCount_applyAll_le empty edits
  have hnone : empty.entryCount = 0 := rfl
  have hbuilt : (empty.applyAll edits).entryCount = r.memberCount + r.shiftCount := by
    change (ofHistory edits).entryCount = _
    rw [h]
    rfl
  rw [length_history]
  omega

/-- The registrations of members and the additions of bookings, each in the order of ids. -/
def listed (members : List (MemberId × Enrolment)) (bookings : List Booking) : List Edit :=
  (sortBy Table.entryKey members).map (fun e => .memberRegistered e.1 e.2) ++
    (sortBy Booking.key bookings).map .shiftAdded

theorem listed_of_perm {r : Rota} (h : r.shifts.Keyed) {members : List (MemberId × Enrolment)}
    {bookings : List Booking} (hmembers : members.Perm r.roster.entries)
    (hbookings : bookings.Perm r.shifts.values) : listed members bookings = r.history := by
  unfold listed history
  rw [sortBy_eq_of_perm_ascending hmembers r.roster.entries_ascend,
    sortBy_eq_of_perm_ascending hbookings h.values_ascend]

/-- The rotas have the same members and the same bookings. -/
def SameAs (r q : Rota) : Prop :=
  (∀ id, r.roster.get? id = q.roster.get? id) ∧ ∀ id, r.shifts.get? id = q.shifts.get? id

theorem SameAs.eq {r q : Rota} (h : r.SameAs q) : r = q := by
  obtain ⟨roster, shifts⟩ := r
  obtain ⟨roster', shifts'⟩ := q
  obtain rfl : roster = roster' := Table.ext_get? h.1
  obtain rfl : shifts = shifts' := Table.ext_get? h.2
  rfl

theorem history_eq_iff {r q : Rota} (hr : r.shifts.Keyed) (hq : q.shifts.Keyed) :
    r.history = q.history ↔ r.SameAs q := by
  constructor
  · intro h
    have heq : r = q := by
      rw [← ofHistory_history hr, h, ofHistory_history hq]
    rw [heq]
    exact ⟨fun _ => rfl, fun _ => rfl⟩
  · intro h
    rw [h.eq]

end Rota

namespace Store

/-- The calls that change what a store holds. -/
inductive Change
  | register (id : MemberId) (enrolment : Enrolment)
  | unregister (id : MemberId)
  | book (booking : Booking)
  | discard (id : ShiftId)
  | edit (e : Edit)
  /-- The batch is recorded with the disk as it is then. -/
  | record (disk : Disk) (batch : List Edit) (fate : RecordFate)

def change (s : Store) : Change → Store
  | .register id m => s.withRota (s.rota.register id m)
  | .unregister id => s.withRota (s.rota.unregister id)
  | .book b => s.withRota (s.rota.store b)
  | .discard id => s.withRota (s.rota.discard id)
  | .edit e => s.withRota (s.rota.apply e)
  | .record d batch fate => (s.record d batch fate).store

/-- The store that edits build from nothing, applied one by one. -/
def ofEdits (edits : List Edit) : Store := (edits.map .edit).foldl change .empty

/-- Stores that are made anew or by opening a journal, and then changed. -/
inductive Reached : Store → Prop
  | fresh : Reached .empty
  | opened {d d' : Disk} {p : Path} {s : Store} (h : ofJournal d p = (d', .ok s)) : Reached s
  | withThreshold {s : Store} (threshold : Nat) (h : Reached s) :
      Reached (s.withThreshold threshold)
  | changed {s : Store} (c : Change) (h : Reached s) : Reached (s.change c)

theorem rota_compact (s : Store) (d : Disk) (fate : WriteFate) :
    (s.compact d fate).2.rota = s.rota := by
  unfold compact
  split
  · rfl
  · split <;> rfl

/-- A record applies its batch, or nothing. -/
theorem rota_record (s : Store) (d : Disk) (batch : List Edit) (fate : RecordFate) :
    (s.record d batch fate).store.rota = s.rota.applyAll batch ∨
      (s.record d batch fate).store.rota = s.rota := by
  unfold record
  split
  · exact Or.inl rfl
  · dsimp only
    split
    · exact Or.inr rfl
    · exact Or.inl (rota_compact _ _ _)

theorem exists_edits_change (s : Store) (c : Change) :
    ∃ edits, (s.change c).rota = s.rota.applyAll edits := by
  cases c with
  | register id m => exact ⟨[.memberRegistered id m], rfl⟩
  | unregister id => exact ⟨[.memberRemoved id], rfl⟩
  | book b => exact ⟨[.shiftAdded b], rfl⟩
  | discard id => exact ⟨[.shiftRemoved id], rfl⟩
  | edit e => exact ⟨[e], rfl⟩
  | record d batch fate =>
      rcases s.rota_record d batch fate with h | h
      · exact ⟨batch, h⟩
      · exact ⟨[], h⟩

theorem exists_edits_ofJournal {d d' : Disk} {p : Path} {s : Store}
    (h : ofJournal d p = (d', .ok s)) : ∃ edits, s.rota = Rota.ofHistory edits := by
  unfold ofJournal at h
  split at h
  · cases h
  · cases h
    exact ⟨_, rfl⟩

theorem Reached.exists_edits {s : Store} (h : s.Reached) :
    ∃ edits, s.rota = Rota.ofHistory edits := by
  induction h with
  | fresh => exact ⟨[], rfl⟩
  | opened hopen => exact exists_edits_ofJournal hopen
  | withThreshold threshold _ ih => exact ih
  | @changed s c _ ih =>
      obtain ⟨edits, hedits⟩ := ih
      obtain ⟨more, hmore⟩ := s.exists_edits_change c
      exact ⟨edits ++ more, by rw [hmore, hedits, Rota.ofHistory_append]⟩

theorem Reached.keyed {s : Store} (h : s.Reached) : s.rota.shifts.Keyed := by
  obtain ⟨edits, hedits⟩ := h.exists_edits
  rw [hedits]
  exact Rota.keyed_ofHistory edits

theorem rota_foldl_edit (edits : List Edit) (s : Store) :
    ((edits.map Change.edit).foldl change s).rota = s.rota.applyAll edits := by
  induction edits generalizing s with
  | nil => rfl
  | cons e edits ih => exact ih (s.change (.edit e))

theorem rota_ofEdits (edits : List Edit) : (ofEdits edits).rota = Rota.ofHistory edits :=
  rota_foldl_edit edits .empty

/-- The history of any store builds what the store holds.  It is told by the members and bookings
alone, however they are listed and whatever calls led to them, and no list of edits that builds
them is shorter: there is one edit for each. -/
theorem Reached.history_shortest {s : Store} (h : s.Reached) :
    (ofEdits s.rota.history).rota = s.rota ∧
      (∀ members bookings, members.Perm s.rota.roster.entries →
        bookings.Perm s.rota.shifts.values → Rota.listed members bookings = s.rota.history) ∧
      (∀ t : Store, t.Reached → (s.rota.history = t.rota.history ↔ s.rota.SameAs t.rota)) ∧
      s.rota.history.length = s.rota.memberCount + s.rota.shiftCount ∧
      ∀ edits, (ofEdits edits).rota = s.rota → s.rota.history.length ≤ edits.length := by
  refine ⟨?_, ?_, ?_, s.rota.length_history, ?_⟩
  · rw [rota_ofEdits]
    exact Rota.ofHistory_history h.keyed
  · intro members bookings hmembers hbookings
    exact Rota.listed_of_perm h.keyed hmembers hbookings
  · intro t ht
    exact Rota.history_eq_iff h.keyed ht.keyed
  · intro edits hedits
    rw [rota_ofEdits] at hedits
    exact Rota.length_history_le hedits

/-- A member without a booking, another registered twice and the booking of an unknown member,
which was moved: of a journaled store, one of whose records was refused, and of a store in memory
alone. -/
theorem history_shortest_moved_booking :
    let opened : Store :=
      ⟨.empty, some ⟨.ofText "rota.journal", #["rota.journal"], .atEnd, 0⟩, 1000⟩
    let s := ((((opened.change (.register (.ofNat 3) ⟨.ofNat 9, .child .underTwo⟩)).change
        (.record ⟨[]⟩ [.memberRegistered (.ofNat 2) ⟨.ofNat 8, .staff⟩,
          .shiftAdded ⟨.ofNat 5, .ofNat 7, 2, 480, 720⟩] .complete)).change
        (.record ⟨[]⟩ [.memberRemoved (.ofNat 3)] ⟨.refused, .complete⟩)).change
        (.edit (.memberRegistered (.ofNat 2) ⟨.ofNat 9, .staff⟩))).change
        (.book ⟨.ofNat 5, .ofNat 7, 9, 0, 0⟩)
    let t := ((Store.empty.change (.book ⟨.ofNat 5, .ofNat 7, 9, 0, 0⟩)).change
        (.register (.ofNat 2) ⟨.ofNat 9, .staff⟩)).change
        (.edit (.memberRegistered (.ofNat 3) ⟨.ofNat 9, .child .underTwo⟩))
    let edits : List Edit := [.memberRegistered (.ofNat 2) ⟨.ofNat 9, .staff⟩,
      .memberRegistered (.ofNat 3) ⟨.ofNat 9, .child .underTwo⟩,
      .shiftAdded ⟨.ofNat 5, .ofNat 7, 9, 0, 0⟩]
    s.Reached ∧ t.Reached ∧ s.rota.SameAs t.rota ∧ s.rota.history = edits ∧
      t.rota.history = edits ∧ ∀ others, (ofEdits others).rota = s.rota → 3 ≤ others.length := by
  intro opened s t edits
  have hopen : ∃ d', ofJournal ⟨[]⟩ (.ofText "rota.journal") = (d', .ok opened) := ⟨_, rfl⟩
  obtain ⟨d', hopen⟩ := hopen
  have hs : s.Reached :=
    .changed _ (.changed _ (.changed _ (.changed _ (.changed _ (.opened hopen)))))
  have ht : t.Reached := .changed _ (.changed _ (.changed _ .fresh))
  have hedits : s.rota.history = edits := rfl
  obtain ⟨-, -, htold, -, hleast⟩ := hs.history_shortest
  have hother : s.rota.history = t.rota.history := rfl
  exact ⟨hs, ht, (htold t ht).mp hother, hedits, hother ▸ hedits, hleast⟩

end Store

end NurseryRota
