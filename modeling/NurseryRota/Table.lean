import NurseryRota.Uuid

/-!
# Tables

A table assigns values to identifiers.  Its entries stand in ascending order of identifier and
no identifier stands twice; the order is part of the type, so a table is what its look-ups say,
whatever edits led to it.  `Table.get?` is the view that every operation is described by.
-/

namespace NurseryRota

universe u

variable {α : Type u}

/-- Values by identifier, listed in ascending order of identifier. -/
@[ext] structure Table (α : Type u) where
  entries : List (Uuid × α)
  ascending : entries.Pairwise fun a b => a.1.toNat < b.1.toNat

namespace Table

instance [DecidableEq α] : DecidableEq (Table α) := fun a b =>
  decidable_of_iff (a.entries = b.entries) (Table.ext_iff).symm

/-- Puts a value at its place among ascending entries, in the stead of an earlier one. -/
def insertEntry (k : Uuid) (v : α) : List (Uuid × α) → List (Uuid × α)
  | [] => [(k, v)]
  | (j, w) :: rest =>
    if k.toNat < j.toNat then (k, v) :: (j, w) :: rest
    else if k = j then (k, v) :: rest
    else (j, w) :: insertEntry k v rest

theorem mem_insertEntry {k : Uuid} {v : α} {entries : List (Uuid × α)} {e : Uuid × α}
    (h : e ∈ insertEntry k v entries) : e = (k, v) ∨ e ∈ entries := by
  induction entries with
  | nil => simpa [insertEntry] using h
  | cons f rest ih =>
    obtain ⟨j, w⟩ := f
    unfold insertEntry at h
    split at h
    · simpa using h
    · split at h
      · rcases List.mem_cons.1 h with h | h
        · exact Or.inl h
        · exact Or.inr (List.mem_cons_of_mem _ h)
      · rcases List.mem_cons.1 h with h | h
        · exact Or.inr (by simp [h])
        · exact (ih h).imp_right (List.mem_cons_of_mem _)

theorem pairwise_insertEntry (k : Uuid) (v : α) {entries : List (Uuid × α)}
    (h : entries.Pairwise fun a b => a.1.toNat < b.1.toNat) :
    (insertEntry k v entries).Pairwise fun a b => a.1.toNat < b.1.toNat := by
  induction entries with
  | nil => simp [insertEntry]
  | cons f rest ih =>
    obtain ⟨j, w⟩ := f
    obtain ⟨hj, hrest⟩ := List.pairwise_cons.1 h
    unfold insertEntry
    split
    · next hlt =>
      refine List.pairwise_cons.2 ⟨fun e he => ?_, h⟩
      rcases List.mem_cons.1 he with rfl | he
      · exact hlt
      · exact Nat.lt_trans hlt (hj e he)
    · next hnlt =>
      split
      · next heq =>
        subst heq
        exact List.pairwise_cons.2 ⟨hj, hrest⟩
      · next hne =>
        refine List.pairwise_cons.2 ⟨fun e he => ?_, ih hrest⟩
        rcases mem_insertEntry he with rfl | he
        · exact Nat.lt_of_le_of_ne (Nat.le_of_not_lt hnlt)
            fun hjk => hne (Uuid.ext hjk.symm)
        · exact hj e he

def empty : Table α := ⟨[], .nil⟩

instance : EmptyCollection (Table α) := ⟨empty⟩
instance : Inhabited (Table α) := ⟨empty⟩

def size (t : Table α) : Nat := t.entries.length

def isEmpty (t : Table α) : Bool := t.entries.isEmpty

def get? (t : Table α) (k : Uuid) : Option α := t.entries.lookup k

def contains (t : Table α) (k : Uuid) : Bool := (t.get? k).isSome

def values (t : Table α) : List α := t.entries.map Prod.snd

def insert (t : Table α) (k : Uuid) (v : α) : Table α :=
  ⟨insertEntry k v t.entries, pairwise_insertEntry k v t.ascending⟩

def filter (t : Table α) (keep : Uuid → α → Bool) : Table α :=
  ⟨t.entries.filter fun e => keep e.1 e.2, t.ascending.filter _⟩

def erase (t : Table α) (k : Uuid) : Table α := t.filter fun j _ => j ≠ k

/-- The table of a list of entries, of which a later one replaces an earlier one. -/
def ofList (entries : List (Uuid × α)) : Table α :=
  entries.foldl (fun t e => t.insert e.1 e.2) ∅

theorem lookup_eq_some_iff {entries : List (Uuid × α)}
    (h : entries.Pairwise fun a b => a.1.toNat < b.1.toNat) {k : Uuid} {v : α} :
    entries.lookup k = some v ↔ (k, v) ∈ entries := by
  induction entries with
  | nil => simp
  | cons e rest ih =>
    obtain ⟨j, w⟩ := e
    obtain ⟨hj, hrest⟩ := List.pairwise_cons.1 h
    by_cases hk : k = j
    · subst hk
      have absent : (k, v) ∉ rest := fun hm => Nat.lt_irrefl _ (hj (k, v) hm)
      simp [absent, eq_comm]
    · have hne : (k == j) = false := beq_eq_false_iff_ne.2 hk
      simp [List.lookup_cons, hne, ih hrest, hk]

theorem mem_insertEntry_iff {k : Uuid} {v : α} {entries : List (Uuid × α)}
    (h : entries.Pairwise fun a b => a.1.toNat < b.1.toNat) {e : Uuid × α} :
    e ∈ insertEntry k v entries ↔ e = (k, v) ∨ e.1 ≠ k ∧ e ∈ entries := by
  induction entries with
  | nil => simp [insertEntry]
  | cons f rest ih =>
    obtain ⟨j, w⟩ := f
    obtain ⟨hj, hrest⟩ := List.pairwise_cons.1 h
    have apart : ∀ e ∈ rest, k.toNat ≤ j.toNat → e.1 ≠ k := fun e he hle heq =>
      Nat.not_lt.2 hle (heq ▸ hj e he)
    unfold insertEntry
    split
    · next hlt =>
      have hjk : j ≠ k := fun heq => Nat.lt_irrefl _ (heq ▸ hlt)
      have := fun he => apart e he (Nat.le_of_lt hlt)
      grind
    · split
      · next heq =>
        subst heq
        have := fun he => apart e he (Nat.le_refl _)
        grind
      · next hne =>
        simp only [List.mem_cons, ih hrest]
        grind

theorem get?_eq_some_iff {t : Table α} {k : Uuid} {v : α} :
    t.get? k = some v ↔ (k, v) ∈ t.entries :=
  lookup_eq_some_iff t.ascending

theorem get?_insert (t : Table α) (k j : Uuid) (v : α) :
    (t.insert k v).get? j = if j = k then some v else t.get? j := by
  ext w
  rw [get?_eq_some_iff, insert, mem_insertEntry_iff t.ascending]
  split
  · next h => simp [h, eq_comm]
  · next h => simp [h, get?_eq_some_iff]

theorem get?_filter (t : Table α) (keep : Uuid → α → Bool) (k : Uuid) :
    (t.filter keep).get? k = (t.get? k).filter (keep k) := by
  ext v
  simp [get?_eq_some_iff, filter, Option.filter_eq_some_iff]

theorem get?_erase (t : Table α) (k j : Uuid) :
    (t.erase k).get? j = if j = k then none else t.get? j := by
  rw [erase, get?_filter]
  by_cases h : j = k
  · cases t.get? j <;> simp [h]
  · cases t.get? j <;> simp [h]

theorem ext_get? {s t : Table α} (h : ∀ k, s.get? k = t.get? k) : s = t := by
  have same : ∀ e, e ∈ s.entries ↔ e ∈ t.entries := fun (k, v) => by
    rw [← get?_eq_some_iff, ← get?_eq_some_iff, h]
  have nodup : ∀ r : Table α, r.entries.Nodup := fun r =>
    r.ascending.imp fun {a b} hlt (heq : a = b) =>
      Nat.lt_irrefl b.1.toNat (by rw [heq] at hlt; exact hlt)
  refine Table.ext (List.Perm.eq_of_pairwise ?_ s.ascending t.ascending ?_)
  · intro a b _ _ hab hba
    exact absurd hab (Nat.lt_asymm hba)
  · exact (List.perm_ext_iff_of_nodup (nodup s) (nodup t)).2 fun e => same e

end Table

end NurseryRota
