import NurseryRota.Proofs.StaffNeed
import NurseryRota.Proofs.TeamDay

/-!
# Headcounts stay in range

No headcount runs below zero, although the departures of a minute are counted before its
arrivals: a span is longer than nothing, so whoever leaves has arrived at an earlier minute.  No
headcount exceeds the number of spans either, and merging makes no more spans than there are
shifts.  A team of fewer than `2 ^ 32` shifts therefore has a timeline under accepted rules.
-/

namespace NurseryRota

theorem ByBand.total_set (t : ByBand Nat) (b : Band) (n : Nat) :
    Rules.total (t.set b n) + t.get b = Rules.total t + n := by
  cases b <;> simp only [Rules.total, ByBand.set, ByBand.get] <;> omega

namespace Headcount

def everybody (h : Headcount) : Nat := h.staff + Rules.total h.children

theorem count_setCount (h : Headcount) (r q : Role) (n : Nat) :
    (h.setCount r n).count q = if q = r then n else h.count q := by
  cases r with
  | staff => cases q <;> simp [setCount, count]
  | child b =>
      cases q with
      | staff => simp [setCount, count]
      | child c => simp [setCount, count, ByBand.get_set]

theorem everybody_setCount (h : Headcount) (r : Role) (n : Nat) :
    (h.setCount r n).everybody + h.count r = h.everybody + n := by
  cases r with
  | staff =>
      simp only [setCount, count, everybody]
      omega
  | child b =>
      have := ByBand.total_set h.children b n
      simp only [setCount, count, everybody]
      omega

theorem count_le_everybody (h : Headcount) (r : Role) : h.count r ≤ h.everybody := by
  have := everybody_setCount h r 0
  omega

theorem total_children_le (h : Headcount) : Rules.total h.children ≤ h.everybody :=
  Nat.le_add_left _ _

end Headcount

namespace Change

variable {h : Headcount} {c : Change} {cs ds : List Change}

def arrivals (cs : List Change) : Nat := cs.countP Change.arrives

def arrivalsOf (r : Role) (cs : List Change) : Nat :=
  cs.countP fun c => c.arrives && decide (c.role = r)

def departuresOf (r : Role) (cs : List Change) : Nat :=
  cs.countP fun c => !c.arrives && decide (c.role = r)

theorem arrivals_append : arrivals (cs ++ ds) = arrivals cs + arrivals ds := List.countP_append

theorem arrivalsOf_append (r : Role) :
    arrivalsOf r (cs ++ ds) = arrivalsOf r cs + arrivalsOf r ds := List.countP_append

theorem departuresOf_append (r : Role) :
    departuresOf r (cs ++ ds) = departuresOf r cs + departuresOf r ds := List.countP_append

/-- The second headcount is the first after the changes. -/
structure Leads (h : Headcount) (cs : List Change) (h' : Headcount) : Prop where
  count : ∀ r, h'.count r + departuresOf r cs = h.count r + arrivalsOf r cs
  everybody_le : h'.everybody ≤ h.everybody + arrivals cs

theorem Leads.append {h' h'' : Headcount} (hcs : Leads h cs h') (hds : Leads h' ds h'') :
    Leads h (cs ++ ds) h'' := by
  constructor
  · intro r
    have h₁ := hcs.count r
    have h₂ := hds.count r
    rw [departuresOf_append, arrivalsOf_append]
    omega
  · have h₁ := hcs.everybody_le
    have h₂ := hds.everybody_le
    rw [arrivals_append]
    omega

/-- Within the changes nobody leaves who has not arrived. -/
def Balanced (h : Headcount) (cs : List Change) : Prop :=
  ∀ p, p <+: cs → ∀ r, departuresOf r p ≤ h.count r + arrivalsOf r p

theorem Balanced.left (hbalanced : Balanced h (cs ++ ds)) : Balanced h cs := fun p hp =>
  hbalanced p (hp.trans (List.prefix_append cs ds))

theorem Balanced.right {h' : Headcount} (hbalanced : Balanced h (cs ++ ds))
    (hleads : Leads h cs h') : Balanced h' ds := by
  intro p hp r
  have hwhole := hbalanced (cs ++ p) ((List.prefix_append_right_inj cs).mpr hp) r
  have hcount := hleads.count r
  rw [departuresOf_append, arrivalsOf_append] at hwhole
  omega

theorem apply_of_arrives (harrives : c.arrives = true)
    (hfits : h.everybody + 1 < capacity 32) :
    c.apply h = .ok (h.setCount c.role (h.count c.role + 1)) := by
  have hle := h.count_le_everybody c.role
  unfold apply
  rw [if_pos harrives, Bounded.add_eq_ok (by omega)]
  rfl

theorem apply_of_leaves (hleaves : c.arrives = false) (hpos : 0 < h.count c.role) :
    c.apply h = .ok (h.setCount c.role (h.count c.role - 1)) := by
  unfold apply
  rw [if_neg (by simp [hleaves]), Bounded.sub_eq_ok hpos]
  rfl

theorem leads_setCount {n : Nat} (hn : n + departuresOf c.role [c] =
    h.count c.role + arrivalsOf c.role [c]) : Leads h [c] (h.setCount c.role n) := by
  constructor
  · intro r
    rw [Headcount.count_setCount]
    split
    · next heq =>
        subst heq
        exact hn
    · next hne =>
        have hrole : ¬ c.role = r := fun h => hne h.symm
        simp [departuresOf, arrivalsOf, hrole]
  · have heverybody := h.everybody_setCount c.role n
    have hle : arrivalsOf c.role [c] = arrivals [c] := by simp [arrivalsOf, arrivals]
    omega

theorem leads_of_apply {h' : Headcount} (happly : c.apply h = .ok h') : Leads h [c] h' := by
  unfold apply at happly
  cases harrives : c.arrives with
  | true =>
      rw [if_pos harrives] at happly
      unfold Bounded.add at happly
      split at happly
      · cases happly
        apply leads_setCount
        simp [departuresOf, arrivalsOf, harrives]
      · cases happly
  | false =>
      rw [if_neg (by simp [harrives])] at happly
      unfold Bounded.sub at happly
      split at happly
      · next hpos =>
          cases happly
          apply leads_setCount
          simp only [departuresOf, arrivalsOf, harrives, List.countP_cons, List.countP_nil]
          simp
          omega
      · cases happly

theorem leads_of_foldlM {h' : Headcount} (hfold : cs.foldlM apply h = .ok h') : Leads h cs h' := by
  induction cs generalizing h with
  | nil =>
      cases hfold
      exact ⟨fun _ => rfl, Nat.le_refl _⟩
  | cons c cs ih =>
      rw [List.foldlM_cons] at hfold
      obtain ⟨next, happly, hrest⟩ := bind_eq_ok_iff.mp hfold
      exact (leads_of_apply happly).append (ih hrest)

theorem Balanced.count_pos (hbalanced : Balanced h [c]) (hleaves : c.arrives = false) :
    0 < h.count c.role := by
  have hself := hbalanced [c] (List.prefix_refl _) c.role
  simp [departuresOf, arrivalsOf, hleaves] at hself
  omega

theorem exists_apply (hbalanced : Balanced h [c])
    (hfits : h.everybody + arrivals [c] < capacity 32) :
    ∃ h', c.apply h = .ok h' ∧ Leads h [c] h' := by
  cases harrives : c.arrives with
  | true =>
      have hone : arrivals [c] = 1 := by simp [arrivals, harrives]
      have hroom : h.everybody + 1 < capacity 32 := by omega
      have happly := apply_of_arrives harrives hroom
      exact ⟨_, happly, leads_of_apply happly⟩
  | false =>
      have happly := apply_of_leaves harrives (hbalanced.count_pos harrives)
      exact ⟨_, happly, leads_of_apply happly⟩

theorem exists_foldlM_apply (hbalanced : Balanced h cs)
    (hfits : h.everybody + arrivals cs < capacity 32) :
    ∃ h', cs.foldlM apply h = .ok h' ∧ Leads h cs h' := by
  induction cs generalizing h with
  | nil =>
      refine ⟨h, rfl, ?_⟩
      constructor
      · intro r
        rfl
      · exact Nat.le_refl _
  | cons c cs ih =>
      change Balanced h ([c] ++ cs) at hbalanced
      change h.everybody + arrivals ([c] ++ cs) < capacity 32 at hfits
      rw [arrivals_append] at hfits
      obtain ⟨h₁, happly, hfirst⟩ := exists_apply hbalanced.left (by omega)
      have hle := hfirst.everybody_le
      obtain ⟨h₂, hrest, hothers⟩ := ih (hbalanced.right hfirst) (by omega)
      refine ⟨h₂, ?_, hfirst.append hothers⟩
      rw [List.foldlM_cons, happly]
      exact hrest

end Change

/-- A day's timeline can be worked out from balanced changes at ascending minutes of the day. -/
theorem slicesFrom_succeeds {rules : Rules} (hrules : rules.Accepted) (policy : Policy)
    (d : Weekday) {before : Headcount} {groups : List (Int × List Change)}
    (hbalanced : Change.Balanced before (groups.flatMap Prod.snd))
    (hfits : before.everybody + Change.arrivals (groups.flatMap Prod.snd) < capacity 32)
    (hascend : groups.Pairwise fun g h => g.1 < h.1)
    (hday : ∀ g ∈ groups, 0 ≤ g.1 ∧ g.1 ≤ minutesPerDay) :
    Succeeds (slicesFrom rules policy d before groups) := by
  induction groups generalizing before with
  | nil => exact succeeds_ok []
  | cons g rest ih =>
      rw [List.flatMap_cons] at hbalanced hfits
      rw [Change.arrivals_append] at hfits
      obtain ⟨present, hpresent, hleads⟩ :=
        Change.exists_foldlM_apply hbalanced.left (by omega)
      have hle := hleads.everybody_le
      cases rest with
      | nil => exact ⟨[], slicesFrom_singleton_eq_ok_iff.mpr ⟨rfl, present, hpresent⟩⟩
      | cons next rest =>
          obtain ⟨hfirst, hascendTail⟩ := List.pairwise_cons.mp hascend
          have hwindow : (⟨d, g.1, next.1⟩ : Interval).Valid := by
            constructor
            · exact (hday g (by simp)).1
            · exact hfirst next (by simp)
            · exact (hday next (by simp)).2
          have hchildren := present.total_children_le
          have htotal : Rules.total present.children < capacity 32 := by omega
          obtain ⟨need, hneed⟩ := Rules.staffNeeded_succeeds hrules policy htotal
          obtain ⟨tail, htail⟩ := ih (hbalanced.right hleads) (by omega) hascendTail
            fun k hk => hday k (List.mem_cons_of_mem g hk)
          exact ⟨_, slicesFrom_cons_cons_eq_ok_iff.mpr
            ⟨present, need, tail, hpresent, hwindow, hneed, htail, rfl⟩⟩

end NurseryRota
