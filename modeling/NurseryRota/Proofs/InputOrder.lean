import NurseryRota.Proofs.ConflictSweep
import NurseryRota.Proofs.Faultless
import NurseryRota.Proofs.TeamShortages

/-!
# The report forgets the order of its input

A store may list the shifts of a team in any order.  Stays of one day that share a key are one and
the same stay, so sorting them leaves nothing of their order, and the shortages of the day are read
off the sorted stays.  Shifts that share the key of a sweep may still differ in their ends, so there
the argument is another one: the sweep finds what comparing every pair finds, which is the same in
every order, and the key of a conflict tells all of it.
-/

namespace NurseryRota

/-! ## Shortages -/

namespace Stay

theorem eq_of_key_eq {a b : Stay} (hday : a.interval.day = b.interval.day) (hkey : a.key = b.key) :
    a = b := by
  obtain ⟨m, r, d, start, stop⟩ := a
  obtain ⟨n, q, e, start', stop'⟩ := b
  simp only [key, SortKey.mk.injEq, List.cons.injEq, and_true] at hday hkey
  obtain ⟨hmember, hrole, hstart, hstop⟩ := hkey
  rw [hday, Uuid.rank_inj.mp hmember, Role.rank_inj.mp hrole, hstart, hstop]

end Stay

theorem presences_of_perm {stays stays' : List Stay} (d : Weekday) (h : stays'.Perm stays) :
    presences d stays' = presences d stays := by
  have hday := h.filter fun s => decide (s.interval.day = d)
  unfold presences
  rw [sortBy_eq_of_perm hday]
  intro a ha b hb hkey
  have hda := (List.mem_filter.mp ha).2
  have hdb := (List.mem_filter.mp hb).2
  simp only [decide_eq_true_eq] at hda hdb
  exact Stay.eq_of_key_eq (hda.trans hdb.symm) hkey

/-! ## Conflicts -/

theorem day_of_pairConflict {a b : Shift} {c : Conflict} (h : pairConflict a b = some c) :
    c.overlap.day = c.day := by
  rcases (pairConflict_eq_some_iff.mp h).2 with ⟨-, h⟩ | ⟨-, h⟩
  · rw [(Shift.conflictWith_eq_some_iff.mp h).2]
  · rw [(Shift.conflictWith_eq_some_iff.mp h).2]

theorem day_of_mem_conflicts {shifts : List Shift} :
    ∀ c ∈ conflicts shifts, c.overlap.day = c.day := by
  intro c hc
  obtain ⟨a, -, b, -, hconflict⟩ := exists_pair_of_mem_conflicts hc
  exact day_of_pairConflict hconflict

theorem conflicts_of_perm {shifts shifts' : List Shift} (h : shifts'.Perm shifts) :
    (conflicts shifts').Perm (conflicts shifts) :=
  (conflicts_perm shifts').trans ((pairwiseConflicts_perm h).trans (conflicts_perm shifts).symm)

namespace Finding

theorem conflict_eq_of_key_eq {c c' : Conflict} (hday : c.overlap.day = c.day)
    (hday' : c'.overlap.day = c'.day) (hkey : (conflict c).key = (conflict c').key) : c = c' := by
  obtain ⟨m, d, first, second, ⟨e, start, stop⟩⟩ := c
  obtain ⟨m', d', first', second', ⟨e', start', stop'⟩⟩ := c'
  simp only [key, window, SortKey.mk.injEq, List.cons.injEq, and_true] at hday hday' hkey
  obtain ⟨hdays, hstart, -, hstop, hmember, hfirst, hsecond⟩ := hkey
  rw [← hday, ← hday', Weekday.rank_inj.mp hdays, hstart, hstop, Uuid.rank_inj.mp hmember,
    Uuid.rank_inj.mp hfirst, Uuid.rank_inj.mp hsecond]

end Finding

theorem sortBy_conflicts_of_perm {shifts shifts' : List Shift} (h : shifts'.Perm shifts) :
    sortBy Finding.key ((conflicts shifts').map .conflict) =
      sortBy Finding.key ((conflicts shifts).map .conflict) := by
  apply sortBy_eq_of_perm ((conflicts_of_perm h).map _)
  intro f hf g hg hkey
  obtain ⟨c, hc, rfl⟩ := List.mem_map.mp hf
  obtain ⟨c', hc', rfl⟩ := List.mem_map.mp hg
  rw [Finding.conflict_eq_of_key_eq (day_of_mem_conflicts c hc) (day_of_mem_conflicts c' hc') hkey]

/-! ## Reports -/

namespace Team

/-- The teams have the same shifts and the same attendances, each as often, in whatever order. -/
structure Perm (t' t : Team) : Prop where
  staff : t'.staff.Perm t.staff
  children : t'.children.Perm t.children

variable {t t' : Team}

theorem Perm.stays (h : t'.Perm t) : t'.stays.Perm t.stays :=
  (h.staff.map _).append (h.children.map _)

theorem Perm.shortages_eq (h : t'.Perm t) (project : ProjectId) (rules : Rules) (policy : Policy)
    (d : Weekday) :
    t'.shortages project rules policy d = t.shortages project rules policy d := by
  unfold shortages coverage changes
  rw [presences_of_perm d h.stays]

/-- However the shifts and the attendances of a team are listed, its report is one and the same.
Under accepted rules a team of valid intervals has one. -/
theorem assemble_of_perm (h : t'.Perm t) (project : ProjectId) (rules : Rules) (policy : Policy) :
    t'.assemble project rules policy = t.assemble project rules policy ∧
      (rules.Accepted → (∀ s ∈ t.staff, s.interval.Valid) →
        (∀ a ∈ t.children, a.shift.interval.Valid) →
        t.staff.length + t.children.length < capacity 32 →
        Succeeds (t.assemble project rules policy)) := by
  constructor
  · have hshortages : t'.shortages project rules policy = t.shortages project rules policy :=
      funext (h.shortages_eq project rules policy)
    unfold assemble Report.ofEntries
    rw [hshortages]
    congr 1
    funext vs
    rw [sortBy_append_congr (sortBy_conflicts_of_perm h.staff) rfl]
  · intro hrules hstaff hchildren hsize
    have hvalid := valid_stays hstaff hchildren
    rw [← length_stays] at hsize
    exact ⟨_, assemble_eq_ok (checkable_of_valid project hrules policy hvalid hsize)⟩

/-- Two shifts of one id start together and end apart, an interval is booked twice, and a child is
listed in two bands. -/
theorem assemble_of_perm_repeated :
    let short : Shift := ⟨.ofNat 1, .ofNat 7, ⟨.monday, 480, 600⟩⟩
    let long : Shift := ⟨.ofNat 1, .ofNat 7, ⟨.monday, 480, 720⟩⟩
    let twin : Shift := ⟨.ofNat 2, .ofNat 7, ⟨.monday, 480, 600⟩⟩
    let baby : Attendance := ⟨⟨.ofNat 3, .ofNat 8, ⟨.monday, 470, 500⟩⟩, .underTwo⟩
    let toddler : Attendance := ⟨⟨.ofNat 3, .ofNat 8, ⟨.monday, 470, 490⟩⟩, .twoYearOld⟩
    let t : Team := ⟨[short, long, twin], [baby, toddler]⟩
    let t' : Team := ⟨[twin, long, short], [toddler, baby]⟩
    t'.Perm t ∧ Rules.Accepted ⟨3, 4, 8⟩ ∧ (pairwiseConflicts t.staff).length = 3 ∧
      ∃ r, t.assemble (.ofNat 3) ⟨3, 4, 8⟩ .pooled = .ok r ∧
        t'.assemble (.ofNat 3) ⟨3, 4, 8⟩ .pooled = .ok r := by
  intro short long twin baby toddler t t'
  have hperm : t'.Perm t := ⟨by decide, by decide⟩
  have hrules : Rules.Accepted ⟨3, 4, 8⟩ := Rules.accepted_standard
  obtain ⟨hsame, hsucceeds⟩ := assemble_of_perm hperm (.ofNat 3) ⟨3, 4, 8⟩ .pooled
  obtain ⟨r, hr⟩ := hsucceeds hrules (by decide) (by decide) (by decide)
  exact ⟨hperm, hrules, by decide, r, hr, hsame.trans hr⟩

end Team

end NurseryRota
