/-!
# Sorting and grouping by key

Every order in which the library lists something is an order of keys.  A key is a list of
integers, compared entry by entry until two entries differ, so that one comparison serves
shifts, spans, findings and timeline changes alike.  The order of keys is linear.  Sorting is
stable: entries with equal keys keep the order in which they were given.

Grouping sorts first and then cuts the list where the label of neighbouring entries changes.
-/

namespace NurseryRota

universe u v

variable {α : Type u} {κ : Type v}

@[ext] structure SortKey where
  entries : List Int
deriving DecidableEq, Repr

namespace SortKey

/-- The first list does not come after the second: it is lower where the two first differ, or it
ends before they do. -/
def precedes : List Int → List Int → Bool
  | [], _ => true
  | _ :: _, [] => false
  | x :: xs, y :: ys => x < y || (x = y && precedes xs ys)

instance : LE SortKey := ⟨fun a b => precedes a.entries b.entries = true⟩

instance (a b : SortKey) : Decidable (a ≤ b) :=
  inferInstanceAs (Decidable (precedes a.entries b.entries = true))

theorem precedes_trans {xs ys zs : List Int} (hxy : precedes xs ys) (hyz : precedes ys zs) :
    precedes xs zs := by
  induction xs generalizing ys zs with
  | nil => rfl
  | cons x xs ih =>
    match ys, zs with
    | [], _ => cases hxy
    | y :: ys, [] => cases hyz
    | y :: ys, z :: zs =>
      simp only [precedes, Bool.or_eq_true, Bool.and_eq_true, decide_eq_true_eq] at *
      rcases hxy with hlt | ⟨rfl, hxy⟩
      · rcases hyz with hlt' | ⟨rfl, _⟩
        · exact Or.inl (Int.lt_trans hlt hlt')
        · exact Or.inl hlt
      · rcases hyz with hlt | ⟨rfl, hyz⟩
        · exact Or.inl hlt
        · exact Or.inr ⟨rfl, ih hxy hyz⟩

theorem precedes_total (xs ys : List Int) : precedes xs ys ∨ precedes ys xs := by
  induction xs generalizing ys with
  | nil => exact Or.inl rfl
  | cons x xs ih =>
    match ys with
    | [] => exact Or.inr rfl
    | y :: ys =>
      simp only [precedes, Bool.or_eq_true, Bool.and_eq_true, decide_eq_true_eq]
      rcases Int.lt_trichotomy x y with hlt | rfl | hlt
      · exact Or.inl (Or.inl hlt)
      · exact (ih ys).imp (fun h => Or.inr ⟨rfl, h⟩) fun h => Or.inr ⟨rfl, h⟩
      · exact Or.inr (Or.inl hlt)

theorem precedes_antisymm {xs ys : List Int} (hxy : precedes xs ys) (hyx : precedes ys xs) :
    xs = ys := by
  induction xs generalizing ys with
  | nil =>
    match ys with
    | [] => rfl
    | _ :: _ => cases hyx
  | cons x xs ih =>
    match ys with
    | [] => cases hxy
    | y :: ys =>
      simp only [precedes, Bool.or_eq_true, Bool.and_eq_true, decide_eq_true_eq] at hxy hyx
      rcases hxy with hlt | ⟨rfl, hxy⟩
      · omega
      · rcases hyx with hlt | ⟨_, hyx⟩
        · omega
        · rw [ih hxy hyx]

theorem trans {a b c : SortKey} (hab : a ≤ b) (hbc : b ≤ c) : a ≤ c := precedes_trans hab hbc

theorem total (a b : SortKey) : a ≤ b ∨ b ≤ a := precedes_total a.entries b.entries

theorem refl (a : SortKey) : a ≤ a := (total a a).elim id id

theorem antisymm {a b : SortKey} (hab : a ≤ b) (hba : b ≤ a) : a = b :=
  SortKey.ext (precedes_antisymm hab hba)

end SortKey

/-- The stable sort of `xs` by ascending key. -/
def sortBy (key : α → SortKey) (xs : List α) : List α :=
  xs.mergeSort fun a b => decide (key a ≤ key b)

/-- The maximal stretches of neighbours that share a label, each with its label. -/
def stretches [DecidableEq κ] (label : α → κ) : List α → List (κ × List α)
  | [] => []
  | x :: xs =>
    match stretches label xs with
    | [] => [(label x, [x])]
    | (k, members) :: rest =>
      if label x = k then (k, x :: members) :: rest
      else (label x, [x]) :: (k, members) :: rest

theorem sortBy_perm (key : α → SortKey) (xs : List α) : (sortBy key xs).Perm xs :=
  List.mergeSort_perm xs _

theorem mem_sortBy {key : α → SortKey} {xs : List α} {x : α} : x ∈ sortBy key xs ↔ x ∈ xs :=
  (sortBy_perm key xs).mem_iff

theorem length_sortBy (key : α → SortKey) (xs : List α) : (sortBy key xs).length = xs.length :=
  (sortBy_perm key xs).length_eq

theorem pairwise_sortBy (key : α → SortKey) (xs : List α) :
    (sortBy key xs).Pairwise fun a b => key a ≤ key b := by
  have sorted : (sortBy key xs).Pairwise fun a b => decide (key a ≤ key b) = true := by
    refine List.pairwise_mergeSort ?_ ?_ xs
    · intro a b c hab hbc
      simp only [decide_eq_true_eq] at *
      exact SortKey.trans hab hbc
    · intro a b
      simpa using SortKey.total (key a) (key b)
  exact sorted.imp fun h => of_decide_eq_true h

theorem flatMap_stretches [DecidableEq κ] (label : α → κ) (xs : List α) :
    (stretches label xs).flatMap Prod.snd = xs := by
  induction xs with
  | nil => rfl
  | cons x xs ih =>
    unfold stretches
    split
    · next h => rw [h] at ih; simpa using ih
    · next k members rest h =>
      rw [h] at ih
      split <;> simpa using ih

theorem label_of_mem_stretches [DecidableEq κ] (label : α → κ) (xs : List α) :
    ∀ g ∈ stretches label xs, ∀ x ∈ g.2, label x = g.1 := by
  induction xs with
  | nil => simp [stretches]
  | cons y xs ih =>
    unfold stretches
    split
    · simp
    · next k members rest h =>
      rw [h] at ih
      split
      · next hy =>
        intro g hg x hx
        rcases List.mem_cons.1 hg with rfl | hg
        · rcases List.mem_cons.1 hx with rfl | hx
          · exact hy
          · exact ih (k, members) (by simp) x hx
        · exact ih g (by simp [hg]) x hx
      · intro g hg x hx
        rcases List.mem_cons.1 hg with rfl | hg
        · simpa using congrArg label (List.mem_singleton.1 hx)
        · exact ih g hg x hx

end NurseryRota
