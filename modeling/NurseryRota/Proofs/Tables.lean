import NurseryRota.Shift
import NurseryRota.Table

/-!
# Tables and their look-ups

How filtering, insertion and removal pass one another in a table, and the tables of a rota in
which every booking stands under its own id.
-/

namespace NurseryRota

namespace Table

universe u

variable {α : Type u}

theorem get?_empty (k : Uuid) : (∅ : Table α).get? k = none := rfl

theorem filter_empty (keep : Uuid → α → Bool) : (∅ : Table α).filter keep = ∅ := by
  apply ext_get?
  intro k
  rw [get?_filter]
  rfl

theorem values_filter (t : Table α) (keep : α → Bool) :
    (t.filter fun _ v => keep v).values = t.values.filter keep := by
  unfold values filter
  rw [List.filter_map]
  rfl

theorem filter_insert (t : Table α) (keep : α → Bool) (k : Uuid) (v : α) :
    (t.insert k v).filter (fun _ w => keep w) =
      if keep v then (t.filter fun _ w => keep w).insert k v
      else (t.filter fun _ w => keep w).erase k := by
  apply ext_get?
  intro j
  split
  · next hv =>
      rw [get?_filter, get?_insert, get?_insert, get?_filter]
      split
      · simp [hv]
      · rfl
  · next hv =>
      rw [get?_filter, get?_insert, get?_erase, get?_filter]
      split
      · simp [hv]
      · rfl

theorem filter_erase (t : Table α) (keep : α → Bool) (k : Uuid) :
    (t.erase k).filter (fun _ w => keep w) = (t.filter fun _ w => keep w).erase k := by
  apply ext_get?
  intro j
  rw [get?_filter, get?_erase, get?_erase, get?_filter]
  split <;> rfl

theorem erase_eq_self {t : Table α} {k : Uuid} (h : t.get? k = none) : t.erase k = t := by
  apply ext_get?
  intro j
  rw [get?_erase]
  split
  · next hj => rw [hj, h]
  · rfl

theorem insert_erase (t : Table α) (k : Uuid) (v : α) : (t.erase k).insert k v = t.insert k v := by
  apply ext_get?
  intro j
  rw [get?_insert, get?_insert, get?_erase]
  split <;> rfl

end Table

/-- Every booking stands under its own id. -/
def Table.Keyed (t : Table Booking) : Prop := ∀ id b, t.get? id = some b → b.id = id

namespace Table.Keyed

variable {t : Table Booking}

theorem empty : Table.Keyed ∅ := by
  intro id b h
  cases h

theorem insert (ht : t.Keyed) (b : Booking) : Table.Keyed (t.insert b.id b) := by
  intro id c h
  rw [get?_insert] at h
  split at h
  · next hid =>
      cases h
      exact hid.symm
  · exact ht id c h

theorem erase (ht : t.Keyed) (id : Uuid) : Table.Keyed (t.erase id) := by
  intro j c h
  rw [get?_erase] at h
  split at h
  · cases h
  · exact ht j c h

theorem ids_values (ht : t.Keyed) : t.values.map Booking.id = t.entries.map Prod.fst := by
  unfold values
  rw [List.map_map]
  apply List.map_congr_left
  rintro ⟨id, b⟩ he
  exact ht id b (get?_eq_some_iff.mpr he)

end Table.Keyed

namespace Table

universe u

variable {α : Type u}

theorem lookup_eq_none_of_forall {entries : List (Uuid × α)} {k : Uuid}
    (h : ∀ e ∈ entries, e.1 ≠ k) : entries.lookup k = none := by
  rw [List.lookup_eq_none_iff]
  intro e he
  simpa using fun heq => h e he heq.symm

theorem get?_foldl_insert {entries : List (Uuid × α)}
    (hascend : entries.Pairwise fun a b => a.1.toNat < b.1.toNat) (t : Table α) (k : Uuid) :
    (entries.foldl (fun t e => t.insert e.1 e.2) t).get? k =
      (entries.lookup k).or (t.get? k) := by
  induction entries generalizing t with
  | nil => rfl
  | cons e rest ih =>
      obtain ⟨he, hrest⟩ := List.pairwise_cons.mp hascend
      rw [List.foldl_cons, ih hrest, get?_insert, List.lookup_cons]
      by_cases hk : k = e.1
      · have hnone : rest.lookup k = none := by
          apply lookup_eq_none_of_forall
          intro f hf hfk
          have hlt := he f hf
          rw [hfk, hk] at hlt
          exact Nat.lt_irrefl _ hlt
        rw [hnone, hk]
        simp
      · have hne : (k == e.1) = false := beq_eq_false_iff_ne.mpr hk
        rw [hne, if_neg hk]

/-- A table is built from nothing by putting its entries in. -/
theorem foldl_insert_entries (t : Table α) :
    t.entries.foldl (fun t e => t.insert e.1 e.2) ∅ = t := by
  apply ext_get?
  intro k
  rw [get?_foldl_insert t.ascending, get?_empty, Option.or_none]
  rfl

end Table

end NurseryRota
