import Mathlib.Data.List.Basic
import NurseryRota.Sorting

/-!
# Stable sorting and grouping

A stable sort is determined by two facts: it ascends, and the entries of each key stand in it
as they stood before.  Everything that later proofs need of an order follows from them, so no
entries have to be told apart that share a key.  Grouping a list whose labels ascend then
commutes with leaving entries out.
-/

namespace NurseryRota

universe u v

variable {α : Type u} {κ : Type v}

theorem SortKey.le_of_eq {a b : SortKey} (h : a = b) : a ≤ b := by
  subst h
  exact SortKey.refl a

/-- Keys compare by their first entries, and where these agree by the others. -/
theorem SortKey.cons_le_cons {x y : Int} {xs ys : List Int} :
    (⟨x :: xs⟩ : SortKey) ≤ ⟨y :: ys⟩ ↔ x < y ∨ x = y ∧ (⟨xs⟩ : SortKey) ≤ ⟨ys⟩ := by
  change SortKey.precedes (x :: xs) (y :: ys) = true ↔
    x < y ∨ x = y ∧ SortKey.precedes xs ys = true
  simp only [SortKey.precedes, Bool.or_eq_true, Bool.and_eq_true, decide_eq_true_eq]

theorem SortKey.singleton_le_singleton {x y : Int} : (⟨[x]⟩ : SortKey) ≤ ⟨[y]⟩ ↔ x ≤ y := by
  rw [SortKey.cons_le_cons, and_iff_left (SortKey.refl ⟨[]⟩), Int.le_iff_lt_or_eq]

theorem filter_key_sortBy (key : α → SortKey) (xs : List α) (k : SortKey) :
    (sortBy key xs).filter (fun x => key x = k) = xs.filter fun x => key x = k := by
  have hties : (xs.filter fun x => decide (key x = k)).Pairwise
      fun a b => decide (key a ≤ key b) = true := by
    rw [List.pairwise_filter]
    apply List.pairwise_of_forall
    intro a b ha hb
    simp only [decide_eq_true_eq] at ha hb ⊢
    exact SortKey.le_of_eq (ha.trans hb.symm)
  have hsub : (xs.filter fun x => decide (key x = k)).Sublist (sortBy key xs) := by
    refine List.sublist_mergeSort ?_ ?_ hties List.filter_sublist
    · intro a b c hab hbc
      simp only [decide_eq_true_eq] at hab hbc ⊢
      exact SortKey.trans hab hbc
    · intro a b
      simpa using SortKey.total (key a) (key b)
  have hfilter := hsub.filter fun x => decide (key x = k)
  rw [List.filter_filter] at hfilter
  simp only [Bool.and_self] at hfilter
  have hlength := ((sortBy_perm key xs).filter fun x => decide (key x = k)).length_eq
  exact (hfilter.eq_of_length hlength.symm).symm

theorem key_head_le {key : α → SortKey} {x : α} {xs : List α}
    (hxs : (x :: xs).Pairwise fun a b => key a ≤ key b) : ∀ y ∈ x :: xs, key x ≤ key y := by
  intro y hy
  rcases List.mem_cons.mp hy with rfl | hy
  · exact SortKey.refl _
  · exact (List.pairwise_cons.mp hxs).1 y hy

/-- Ascending lists that agree on every key are equal. -/
theorem eq_of_filter_key {key : α → SortKey} {xs ys : List α}
    (hxs : xs.Pairwise fun a b => key a ≤ key b)
    (hys : ys.Pairwise fun a b => key a ≤ key b)
    (hkeys : ∀ k, xs.filter (fun x => key x = k) = ys.filter fun x => key x = k) :
    xs = ys := by
  induction xs generalizing ys with
  | nil =>
      cases ys with
      | nil => rfl
      | cons y ys =>
          have h := hkeys (key y)
          simp at h
  | cons x xs ih =>
      cases ys with
      | nil =>
          have h := hkeys (key x)
          simp at h
      | cons y ys =>
          have hxsTail := (List.pairwise_cons.mp hxs).2
          have hysTail := (List.pairwise_cons.mp hys).2
          have hmemLeft : x ∈ (y :: ys).filter fun z => decide (key z = key x) := by
            rw [← hkeys (key x)]
            simp
          have hmemRight : y ∈ (x :: xs).filter fun z => decide (key z = key y) := by
            rw [hkeys (key y)]
            simp
          have hyx := key_head_le hys x (List.mem_of_mem_filter hmemLeft)
          have hxy := key_head_le hxs y (List.mem_of_mem_filter hmemRight)
          have hkey : key x = key y := SortKey.antisymm hxy hyx
          have hhead := hkeys (key x)
          simp only [hkey, decide_true, List.filter_cons_of_pos] at hhead
          obtain ⟨rfl, -⟩ := List.cons.inj hhead
          congr 1
          apply ih hxsTail hysTail
          intro k
          have hk := hkeys k
          by_cases hxk : key x = k
          · simp only [hxk, decide_true, List.filter_cons_of_pos] at hk
            exact (List.cons.inj hk).2
          · simpa [hxk] using hk

theorem eq_sortBy {key : α → SortKey} {xs ys : List α}
    (hxs : xs.Pairwise fun a b => key a ≤ key b)
    (hkeys : ∀ k, xs.filter (fun x => key x = k) = ys.filter fun x => key x = k) :
    xs = sortBy key ys := by
  apply eq_of_filter_key hxs (pairwise_sortBy key ys)
  intro k
  rw [filter_key_sortBy]
  exact hkeys k

theorem sortBy_congr {key : α → SortKey} {xs ys : List α}
    (hkeys : ∀ k, xs.filter (fun x => key x = k) = ys.filter fun x => key x = k) :
    sortBy key xs = sortBy key ys := by
  apply eq_sortBy (pairwise_sortBy key xs)
  intro k
  rw [filter_key_sortBy]
  exact hkeys k

theorem sortBy_of_pairwise {key : α → SortKey} {xs : List α}
    (hxs : xs.Pairwise fun a b => key a ≤ key b) : sortBy key xs = xs :=
  (eq_sortBy hxs fun _ => rfl).symm

theorem sortBy_nil (key : α → SortKey) : sortBy key [] = [] := sortBy_of_pairwise .nil

theorem sortBy_filter (key : α → SortKey) (keep : α → Bool) (xs : List α) :
    sortBy key (xs.filter keep) = (sortBy key xs).filter keep := by
  symm
  apply eq_sortBy ((pairwise_sortBy key xs).filter keep)
  intro k
  rw [List.filter_comm, filter_key_sortBy, List.filter_comm]

theorem sortBy_flatMap_sortBy {β : Type*} (key : α → SortKey) (f : β → List α) (parts : List β) :
    sortBy key (parts.flatMap fun p => sortBy key (f p)) = sortBy key (parts.flatMap f) := by
  apply sortBy_congr
  intro k
  simp only [List.filter_flatMap, filter_key_sortBy]

theorem sortBy_append_congr {key : α → SortKey} {xs xs' ys ys' : List α}
    (hxs : sortBy key xs = sortBy key xs') (hys : sortBy key ys = sortBy key ys') :
    sortBy key (xs ++ ys) = sortBy key (xs' ++ ys') := by
  apply sortBy_congr
  intro k
  rw [List.filter_append, List.filter_append, ← filter_key_sortBy key xs, hxs,
    ← filter_key_sortBy key ys, hys, filter_key_sortBy, filter_key_sortBy]

theorem sortBy_ascends {key : α → SortKey} {xs : List α}
    (hkeys : xs.Pairwise fun a b => key a ≠ key b) :
    (sortBy key xs).Pairwise fun a b => key a ≤ key b ∧ key a ≠ key b :=
  (pairwise_sortBy key xs).and (((sortBy_perm key xs).pairwise_iff Ne.symm).mpr hkeys)

/-- Where entries are told apart by their keys, sorting forgets the order of its input. -/
theorem sortBy_eq_of_perm {key : α → SortKey} {xs ys : List α} (hperm : xs.Perm ys)
    (hinj : ∀ a ∈ xs, ∀ b ∈ xs, key a = key b → a = b) :
    sortBy key xs = sortBy key ys := by
  refine List.Perm.eq_of_pairwise ?_ (pairwise_sortBy key xs) (pairwise_sortBy key ys) ?_
  · intro a b ha hb hab hba
    rw [mem_sortBy] at ha hb
    exact hinj a ha b (hperm.mem_iff.mpr hb) (SortKey.antisymm hab hba)
  · exact (sortBy_perm key xs).trans (hperm.trans (sortBy_perm key ys).symm)

/-- Lists that ascend without a tie are told apart by what is in them. -/
theorem eq_of_mem_iff {key : α → SortKey} {xs ys : List α}
    (hxs : xs.Pairwise fun a b => key a ≤ key b ∧ key a ≠ key b)
    (hys : ys.Pairwise fun a b => key a ≤ key b ∧ key a ≠ key b)
    (hmem : ∀ x, x ∈ xs ↔ x ∈ ys) : xs = ys := by
  have hnodup : ∀ zs : List α, zs.Pairwise (fun a b => key a ≤ key b ∧ key a ≠ key b) →
      zs.Nodup := fun zs hzs => hzs.imp fun h heq => h.2 (congrArg key heq)
  refine List.Perm.eq_of_pairwise ?_ hxs hys ?_
  · intro a b _ _ hab hba
    exact absurd (SortKey.antisymm hab.1 hba.1) hab.2
  · exact (List.perm_ext_iff_of_nodup (hnodup xs hxs) (hnodup ys hys)).mpr hmem

/-- A list that ascends without a tie is the sorted form of each of its rearrangements. -/
theorem sortBy_eq_of_perm_ascending {key : α → SortKey} {xs ys : List α} (hperm : xs.Perm ys)
    (hys : ys.Pairwise fun a b => key a ≤ key b ∧ key a ≠ key b) : sortBy key xs = ys := by
  have hkeys : xs.Pairwise fun a b => key a ≠ key b :=
    (hperm.pairwise_iff Ne.symm).mpr (hys.imp And.right)
  exact eq_of_mem_iff (sortBy_ascends hkeys) hys fun _ => mem_sortBy.trans hperm.mem_iff

theorem flatMap_of_nodup {β : Type*} {labels : List κ} (hnodup : labels.Nodup) {k : κ}
    (hk : k ∈ labels) {f : κ → List β} (hothers : ∀ l, l ≠ k → f l = []) :
    labels.flatMap f = f k := by
  induction labels with
  | nil => cases hk
  | cons l labels ih =>
      obtain ⟨hl, hrest⟩ := List.nodup_cons.mp hnodup
      rw [List.flatMap_cons]
      by_cases hlk : l = k
      · subst hlk
        have hnone : labels.flatMap f = [] := by
          rw [List.flatMap_eq_nil_iff]
          intro m hm
          exact hothers m fun h => hl (h ▸ hm)
        rw [hnone, List.append_nil]
      · have hmem : k ∈ labels := (List.mem_cons.mp hk).resolve_left fun h => hlk h.symm
        rw [hothers l hlk, ih hrest hmem]
        rfl

/-- A list may be sorted from the parts that bear each label, where entries with one key bear one
label. -/
theorem sortBy_flatMap_filter [DecidableEq κ] {key : α → SortKey} {label : α → κ}
    (hkeys : ∀ a b, key a = key b → label a = label b) {labels : List κ} (hnodup : labels.Nodup)
    {xs : List α} (hall : ∀ x ∈ xs, label x ∈ labels) :
    sortBy key (labels.flatMap fun l => xs.filter fun x => label x = l) = sortBy key xs := by
  apply sortBy_congr
  intro k
  simp only [List.filter_flatMap, List.filter_comm (fun x => decide (key x = k))]
  by_cases hnone : xs.filter (fun x => decide (key x = k)) = []
  · simp [hnone]
  · obtain ⟨x, hx⟩ := List.exists_mem_of_ne_nil _ hnone
    obtain ⟨hmem, hkey⟩ := List.mem_filter.mp hx
    have hlabel : ∀ y ∈ xs.filter (fun x => decide (key x = k)), label y = label x := by
      intro y hy
      have hykey := (List.mem_filter.mp hy).2
      simp only [decide_eq_true_eq] at hkey hykey
      exact hkeys y x (hykey.trans hkey.symm)
    rw [flatMap_of_nodup hnodup (hall x hmem)]
    · rw [List.filter_eq_self]
      intro y hy
      simpa using hlabel y hy
    · intro l hl
      rw [List.filter_eq_nil_iff]
      intro y hy
      rw [hlabel y hy]
      simpa using hl.symm

/-! ## Grouping -/

/-- The labels of a list ascend in some linear order. -/
def LabelsAscend (label : α → κ) (rank : κ → SortKey) (xs : List α) : Prop :=
  xs.Pairwise fun a b => rank (label a) ≤ rank (label b)

section Stretches

variable {label : α → κ} {rank : κ → SortKey}

theorem LabelsAscend.filter {xs : List α} (hxs : LabelsAscend label rank xs)
    (keep : α → Bool) : LabelsAscend label rank (xs.filter keep) :=
  List.Pairwise.filter keep hxs

variable [DecidableEq κ]

theorem stretches_cons (hrank : Function.Injective rank) {x : α} {xs : List α}
    (hxs : LabelsAscend label rank (x :: xs)) :
    stretches label (x :: xs) =
      (label x, x :: xs.filter fun y => label y = label x) ::
        stretches label (xs.filter fun y => label y ≠ label x) := by
  induction xs generalizing x with
  | nil => rfl
  | cons y ys ih =>
      obtain ⟨hx, htail⟩ := List.pairwise_cons.mp hxs
      rw [stretches, ih htail]
      by_cases hlabel : label x = label y
      · simp [hlabel]
      · have habsent : ∀ z ∈ y :: ys, label z ≠ label x := by
          intro z hz hzx
          have hyz : rank (label y) ≤ rank (label z) := by
            rcases List.mem_cons.mp hz with rfl | hz
            · exact SortKey.refl _
            · exact (List.pairwise_cons.mp htail).1 z hz
          have hxy : rank (label x) ≤ rank (label y) := hx y (by simp)
          rw [hzx] at hyz
          exact hlabel (hrank (SortKey.antisymm hxy hyz))
        have hsame : (y :: ys).filter (fun z => decide (label z = label x)) = [] := by
          rw [List.filter_eq_nil_iff]
          intro z hz
          simpa using habsent z hz
        have hothers : (y :: ys).filter (fun z => decide (label z ≠ label x)) = y :: ys := by
          rw [List.filter_eq_self]
          intro z hz
          simpa using habsent z hz
        rw [hsame, hothers, ih htail]
        simp [hlabel]

theorem mem_stretches_iff (hrank : Function.Injective rank) {xs : List α}
    (hxs : LabelsAscend label rank xs) {g : κ × List α} :
    g ∈ stretches label xs ↔ g.2 ≠ [] ∧ g.2 = xs.filter fun x => label x = g.1 := by
  induction hn : xs.length using Nat.strongRecOn generalizing xs with
  | ind n ih =>
      cases xs with
      | nil => simp [stretches]
      | cons x xs =>
          have hothers := (List.pairwise_cons.mp hxs).2.filter fun y => decide (label y ≠ label x)
          have hlength : (xs.filter fun y => decide (label y ≠ label x)).length < n := by
            have := List.length_filter_le (fun y => decide (label y ≠ label x)) xs
            simp only [List.length_cons] at hn
            omega
          rw [stretches_cons hrank hxs, List.mem_cons, ih _ hlength hothers rfl,
            List.filter_filter]
          by_cases hg : g.1 = label x
          · have hnone : (xs.filter fun y => decide (label y = g.1) && decide (label y ≠ label x)) =
                [] := by
              rw [List.filter_eq_nil_iff]
              intro y _
              simp [hg]
            rw [hnone]
            obtain ⟨k, members⟩ := g
            subst hg
            simp only [ne_eq, Prod.mk.injEq, true_and, decide_true,
              List.filter_cons_of_pos]
            constructor
            · rintro (rfl | ⟨hne, hnil⟩)
              · exact ⟨List.cons_ne_nil _ _, rfl⟩
              · exact absurd hnil hne
            · exact fun h => Or.inl h.2
          · have hxg : label x ≠ g.1 := fun h => hg h.symm
            have hsame : (xs.filter fun y => decide (label y = g.1) && decide (label y ≠ label x)) =
                xs.filter fun y => decide (label y = g.1) := by
              apply List.filter_congr
              intro y _
              by_cases hy : label y = g.1
              · simp [hy, hg]
              · simp [hy]
            rw [hsame, List.filter_cons_of_neg (by simpa using hxg)]
            constructor
            · rintro (rfl | h)
              · exact absurd rfl hg
              · exact h
            · exact Or.inr

theorem pairwise_stretches (hrank : Function.Injective rank) {xs : List α}
    (hxs : LabelsAscend label rank xs) :
    (stretches label xs).Pairwise fun g h => rank g.1 ≤ rank h.1 ∧ g.1 ≠ h.1 := by
  induction hn : xs.length using Nat.strongRecOn generalizing xs with
  | ind n ih =>
      cases xs with
      | nil => simp [stretches]
      | cons x xs =>
          obtain ⟨hx, htail⟩ := List.pairwise_cons.mp hxs
          have hothers := htail.filter fun y => decide (label y ≠ label x)
          have hlength : (xs.filter fun y => decide (label y ≠ label x)).length < n := by
            have := List.length_filter_le (fun y => decide (label y ≠ label x)) xs
            simp only [List.length_cons] at hn
            omega
          rw [stretches_cons hrank hxs, List.pairwise_cons]
          refine ⟨?_, ih _ hlength hothers rfl⟩
          intro g hg
          rw [mem_stretches_iff hrank hothers] at hg
          obtain ⟨y, hy⟩ := List.exists_mem_of_ne_nil _ hg.1
          rw [hg.2, List.mem_filter, List.mem_filter] at hy
          simp only [decide_eq_true_eq] at hy
          obtain ⟨⟨hmem, hne⟩, hlabel⟩ := hy
          rw [← hlabel]
          exact ⟨hx y hmem, fun h => hne h.symm⟩

/-- Leaving entries out of a list leaves them out of its groups, and drops the groups that
lose all. -/
theorem stretches_filter (hrank : Function.Injective rank) {xs : List α}
    (hxs : LabelsAscend label rank xs) (keep : α → Bool) :
    stretches label (xs.filter keep) =
      ((stretches label xs).map fun g => (g.1, g.2.filter keep)).filter fun g => g.2 ≠ [] := by
  have hgroups := (pairwise_stretches hrank hxs).imp fun h => And.imp_right (mt (hrank ·)) h
  have hleft := (pairwise_stretches hrank (hxs.filter keep)).imp
    fun h => And.imp_right (mt (hrank ·)) h
  refine eq_of_mem_iff hleft ((List.pairwise_map.mpr hgroups).filter _) ?_
  intro g
  rw [mem_stretches_iff hrank (hxs.filter keep), List.mem_filter, List.mem_map,
    List.filter_comm]
  constructor
  · rintro ⟨hne, hg⟩
    refine ⟨⟨(g.1, xs.filter fun x => decide (label x = g.1)), ?_, ?_⟩, by simpa using hne⟩
    · rw [mem_stretches_iff hrank hxs]
      refine ⟨?_, rfl⟩
      intro hnil
      exact hne (by rw [hg, show xs.filter _ = [] from hnil]; rfl)
    · rw [← hg]
  · rintro ⟨⟨h, hh, rfl⟩, hne⟩
    rw [mem_stretches_iff hrank hxs] at hh
    refine ⟨by simpa using hne, ?_⟩
    rw [← hh.2]

/-- A sum over groups in which empty ones count nothing may leave entries out of each group
instead of out of the list. -/
theorem flatMap_stretches_filter {β : Type*} (hrank : Function.Injective rank) {xs : List α}
    (hxs : LabelsAscend label rank xs) (keep : α → Bool) (f : κ → List α → List β)
    (hempty : ∀ k, f k [] = []) :
    (stretches label (xs.filter keep)).flatMap (fun g => f g.1 g.2) =
      (stretches label xs).flatMap fun g => f g.1 (g.2.filter keep) := by
  rw [stretches_filter hrank hxs]
  induction stretches label xs with
  | nil => rfl
  | cons g gs ih =>
      by_cases hg : g.2.filter keep = []
      · simpa [hg, hempty] using ih
      · simpa [hg] using ih

/-- Where all entries of a list bear one label, a sum over its groups is the sum of the list. -/
theorem flatMap_stretches_of_same {β : Type*} (hrank : Function.Injective rank) {xs : List α}
    (hxs : LabelsAscend label rank xs) (hsame : ∀ x ∈ xs, ∀ y ∈ xs, label x = label y)
    (f : List α → List β) (hempty : f [] = []) :
    (stretches label xs).flatMap (fun g => f g.2) = f xs := by
  cases xs with
  | nil => exact hempty.symm
  | cons x xs =>
      have hlabel : ∀ y ∈ xs, label y = label x := fun y hy =>
        hsame y (List.mem_cons_of_mem x hy) x (by simp)
      have hall : xs.filter (fun y => decide (label y = label x)) = xs := by
        rw [List.filter_eq_self]
        intro y hy
        simpa using hlabel y hy
      have hnone : xs.filter (fun y => decide (label y ≠ label x)) = [] := by
        rw [List.filter_eq_nil_iff]
        intro y hy
        simpa using hlabel y hy
      rw [stretches_cons hrank hxs, hall, hnone]
      simp [stretches]

end Stretches

end NurseryRota
