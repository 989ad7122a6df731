import Mathlib.Data.List.ReduceOption
import NurseryRota.Proofs.TeamShortages

/-!
# Checking with every step guarded

A pass runs on words of fixed width and on intervals within a day.  The same work is written here
with a guard before every step that could leave them: a divisor is looked at before it divides, a
quotient before it is narrowed to 32 bits, a number before it is taken from another, and an interval
when it is built.  A guard that fails is a fault.

Whatever passes the guards gives what the work gives without them.  Under accepted rules everything
passes that fewer than `2 ^ 32` bookings can bring about.
-/

namespace NurseryRota

namespace Bounded

/-- The whole part of a quotient, if there is one. -/
def div (a b : Nat) : Except Fault Nat := if b = 0 then .error .divideByZero else .ok (a / b)

/-- The number, if it fits in `bits` bits. -/
def narrow (bits a : Nat) : Except Fault Nat :=
  if a < capacity bits then .ok a else .error .addOverflow

theorem div_eq_ok {a b : Nat} (h : 0 < b) : div a b = .ok (a / b) := by
  unfold div
  rw [if_neg (by omega)]

theorem narrow_eq_ok {bits a : Nat} (h : a < capacity bits) : narrow bits a = .ok a := by
  unfold narrow
  rw [if_pos h]

end Bounded

/-! ## The need -/

namespace Rules

variable {rules : Rules} {policy : Policy} {children : ByBand Nat}

def guardedMultiple (rules : Rules) : Except Fault Nat :=
  Band.all.foldlM (fun m b => do
    let part ← Bounded.div m (commonDivisor m (rules.pooledRatio b))
    Bounded.mul 64 part (rules.pooledRatio b)) 1

def guardedParts (rules : Rules) (multiple : Nat) (children : ByBand Nat) : Except Fault Nat :=
  Band.all.foldlM (fun sum b => do
    let each ← Bounded.div multiple (rules.pooledRatio b)
    let parts ← Bounded.mul 64 (children.get b) each
    Bounded.add 64 sum parts) 0

def guardedNeed (rules : Rules) (policy : Policy) (children : ByBand Nat) : Except Fault Nat :=
  match policy with
  | .perBand => rules.neededPerBand children
  | .pooled => do
    let multiple ← rules.guardedMultiple
    let parts ← rules.guardedParts multiple children
    let need ← Bounded.ceilDiv parts multiple
    Bounded.narrow 32 need

theorem pooledRatio_pos (rules : Rules) (b : Band) : 0 < rules.pooledRatio b :=
  Nat.lt_of_lt_of_le Nat.one_pos (Nat.le_max_right _ _)

/-- A pooled ratio is never zero, so nothing is divided by zero whatever the rules are. -/
theorem guardedMultiple_eq (rules : Rules) : rules.guardedMultiple = rules.commonMultiple := by
  unfold guardedMultiple commonMultiple
  congr 1
  funext m b
  have hdivisor : 0 < commonDivisor m (rules.pooledRatio b) := by
    rw [commonDivisor_eq_gcd]
    exact Nat.gcd_pos_of_pos_right _ (rules.pooledRatio_pos b)
  rw [Bounded.div_eq_ok hdivisor, ok_bind]
  rfl

theorem guardedParts_eq (rules : Rules) (multiple : Nat) (children : ByBand Nat) :
    rules.guardedParts multiple children = rules.pooledParts multiple children := by
  unfold guardedParts pooledParts
  congr 1
  funext sum b
  rw [Bounded.div_eq_ok (rules.pooledRatio_pos b), ok_bind]

theorem guardedNeed_eq_ok (hrules : rules.Accepted) (policy : Policy)
    (htotal : total children < capacity 32) :
    rules.guardedNeed policy children = .ok (rules.rounded policy children) := by
  have hbound := rounded_le_total hrules policy children
  cases policy with
  | perBand => exact neededPerBand_eq_ok hrules htotal
  | pooled =>
      obtain ⟨multiple, parts, hmultiple, hparts, hneed⟩ := pooledQuotient_eq_ok hrules htotal
      unfold guardedNeed
      rw [guardedMultiple_eq, hmultiple, ok_bind, guardedParts_eq, hparts, ok_bind, hneed, ok_bind,
        Bounded.narrow_eq_ok (by omega)]

end Rules

/-! ## The timeline of a day -/

section Slices

variable {rules : Rules} {policy : Policy} {d : Weekday} {before : Headcount}

def guardedSlices (rules : Rules) (policy : Policy) (day : Weekday) (before : Headcount) :
    List (Int × List Change) → Except Fault (List Slice)
  | [] => .ok []
  | (minute, changes) :: rest => do
    let present ← changes.foldlM Change.apply before
    match rest with
    | [] => return []
    | (next, _) :: _ =>
      let window ← Interval.between day minute next
      let required ← rules.guardedNeed policy present.children
      let slices ← guardedSlices rules policy day present rest
      return ⟨window, present, required⟩ :: slices

/-- Slices whose needs pass the guards are the slices without. -/
theorem guardedSlices_eq_ok {groups : List (Int × List Change)} {slices : List Slice}
    (h : slicesFrom rules policy d before groups = .ok slices)
    (hneed : ∀ s ∈ slices, rules.guardedNeed policy s.present.children = .ok s.required) :
    guardedSlices rules policy d before groups = .ok slices := by
  -- The windows are guarded in both, so only the needs have to be told.
  induction groups generalizing before slices with
  | nil => exact h
  | cons g rest ih =>
      cases rest with
      | nil =>
          obtain ⟨rfl, present, hpresent⟩ := slicesFrom_singleton_eq_ok_iff.mp h
          rw [guardedSlices, hpresent]
          rfl
      | cons next rest =>
          obtain ⟨present, need, tail, hpresent, hvalid, -, htail, rfl⟩ :=
            slicesFrom_cons_cons_eq_ok_iff.mp h
          have hwindow : Interval.between d g.1 next.1 = .ok ⟨d, g.1, next.1⟩ :=
            Interval.between_eq_ok_iff.mpr ⟨rfl, hvalid⟩
          have hfirst : rules.guardedNeed policy present.children = .ok need :=
            hneed ⟨⟨d, g.1, next.1⟩, present, need⟩ (by simp)
          have hrest := ih htail fun s hs => hneed s (List.mem_cons_of_mem _ hs)
          rw [guardedSlices, hpresent, ok_bind]
          dsimp only
          rw [hwindow, ok_bind, hfirst, ok_bind, hrest, ok_bind]
          rfl

end Slices

namespace Team

variable {t : Team} {rules : Rules} {policy : Policy} {d : Weekday}

/-- No more children are counted in a slice than the team has bookings of children. -/
theorem guardedNeed_of_mem_coverage (hrules : rules.Accepted)
    (hvalid : ∀ s ∈ t.stays, s.interval.Valid) (hsize : t.stays.length < capacity 32)
    {slices : List Slice} (hslices : t.coverage rules policy d = .ok slices) :
    ∀ s ∈ slices, rules.guardedNeed policy s.present.children = .ok s.required := by
  obtain ⟨lo, hi, htiles, -⟩ := coverage_tiles hvalid hslices
  intro s hs
  obtain ⟨hlong, htolds⟩ := htiles.of_mem s hs
  have htold := htolds s.window.start (Int.le_refl _) hlong
  have hpresent := (Headcount.eq_ofPresent htold.count).trans headcount_eq
  have hle : Rules.total s.present.children ≤ t.children.length := by
    rw [hpresent]
    exact total_childrenAt_le
  have htotal : Rules.total s.present.children < capacity 32 := by
    rw [length_stays] at hsize
    omega
  have hneed := htold.need
  rw [Rules.staffNeeded_eq_ok hrules policy htotal] at hneed
  rw [Rules.guardedNeed_eq_ok hrules policy htotal, hneed]

end Team

/-! ## Shortages -/

namespace Shortage

variable {project : ProjectId}

def guardedOfSlice (project : ProjectId) (s : Slice) : Except Fault Shortage := do
  let missing ← Bounded.sub s.required s.present.staff
  return ⟨project, s.window.day, s.window, s.required, s.present.staff, missing⟩

def guardedExtend (p : Shortage) (s : Slice) : Except Fault Shortage := do
  let missing ← Bounded.sub s.required s.present.staff
  let window ← Interval.between p.window.day p.window.start s.window.stop
  return { p with
    window := window
    required := max p.required s.required
    actual := min p.actual s.present.staff
    shortfall := max p.shortfall missing }

def guardedCollect (project : ProjectId) (pending : Option Shortage) :
    List Slice → Except Fault (List Shortage)
  | [] => .ok pending.toList
  | s :: rest =>
    if !s.short then do
      let later ← guardedCollect project none rest
      return pending.toList ++ later
    else
      match pending with
      | none => do
        let opened ← guardedOfSlice project s
        guardedCollect project (some opened) rest
      | some p =>
        if p.window.stop = s.window.start then do
          let extended ← p.guardedExtend s
          guardedCollect project (some extended) rest
        else do
          let opened ← guardedOfSlice project s
          let later ← guardedCollect project (some opened) rest
          return p :: later

theorem sub_of_short {s : Slice} (h : s.short = true) :
    Bounded.sub s.required s.present.staff = .ok (s.required - s.present.staff) := by
  have hless : s.present.staff < s.required := by simpa [Slice.short] using h
  exact Bounded.sub_eq_ok (Nat.le_of_lt hless)

theorem guardedOfSlice_eq_ok {s : Slice} (h : s.short = true) :
    guardedOfSlice project s = .ok (ofSlice project s) := by
  unfold guardedOfSlice
  rw [sub_of_short h]
  rfl

theorem guardedExtend_eq_ok {p : Shortage} {s : Slice} (hp : p.window.Valid) (hs : s.window.Valid)
    (hmeets : p.window.stop = s.window.start) (hshort : s.short = true) :
    p.guardedExtend s = .ok (p.extend s) := by
  have hwindow : Interval.between p.window.day p.window.start s.window.stop =
      .ok (p.extend s).window :=
    Interval.between_eq_ok_iff.mpr ⟨rfl, valid_extend hp hs hmeets⟩
  unfold guardedExtend
  rw [sub_of_short hshort, ok_bind, hwindow]
  rfl

/-- Only short slices are measured, and slices between minutes of the day give windows between
minutes of the day. -/
theorem guardedCollect_eq_ok {pending : Option Shortage} {slices : List Slice}
    (hpending : ∀ p ∈ pending, p.window.Valid) (hslices : ∀ s ∈ slices, s.window.Valid) :
    guardedCollect project pending slices = .ok (collect project pending slices) := by
  -- The window that is open stays within the day: it is extended only by a slice that begins where
  -- it stops.
  induction slices generalizing pending with
  | nil => rfl
  | cons s rest ih =>
      have hs : s.window.Valid := hslices s (by simp)
      have hrest : ∀ u ∈ rest, u.window.Valid := fun u hu => hslices u (List.mem_cons_of_mem s hu)
      have hopened : ∀ p ∈ some (ofSlice project s), p.window.Valid := by simpa [ofSlice] using hs
      cases hshort : s.short with
      | false =>
          have hlater : guardedCollect project none rest = .ok (collect project none rest) :=
            ih (by simp) hrest
          simp only [guardedCollect, collect, hshort, Bool.not_false, if_true, hlater, ok_bind]
          rfl
      | true =>
          have hopen : guardedOfSlice project s = .ok (ofSlice project s) :=
            guardedOfSlice_eq_ok hshort
          cases pending with
          | none =>
              simp only [guardedCollect, collect, hshort, hopen, ok_bind, ih hopened hrest,
                Bool.not_true, Bool.false_eq_true, if_false]
          | some p =>
              have hp : p.window.Valid := hpending p rfl
              by_cases hmeets : p.window.stop = s.window.start
              · have hextended : ∀ q ∈ some (p.extend s), q.window.Valid := by
                  simpa using valid_extend hp hs hmeets
                simp only [guardedCollect, collect, hshort, hmeets,
                  guardedExtend_eq_ok hp hs hmeets hshort, ok_bind, ih hextended hrest,
                  Bool.not_true, Bool.false_eq_true, if_false, if_true]
              · simp only [guardedCollect, collect, hshort, hmeets, hopen, ok_bind,
                  ih hopened hrest, Bool.not_true, Bool.false_eq_true, if_false]
                rfl

end Shortage

namespace Team

variable {t : Team} {rules : Rules}

def guardedShortages (t : Team) (project : ProjectId) (rules : Rules) (policy : Policy)
    (day : Weekday) : Except Fault (List Shortage) := do
  let slices ← guardedSlices rules policy day .nobody (t.changes day)
  Shortage.guardedCollect project none slices

theorem guardedShortages_eq_ok (project : ProjectId) (hrules : rules.Accepted) (policy : Policy)
    (hvalid : ∀ s ∈ t.stays, s.interval.Valid) (hsize : t.stays.length < capacity 32)
    (d : Weekday) : t.guardedShortages project rules policy d =
      .ok (t.shortagesOn project rules policy d) := by
  obtain ⟨slices, hslices⟩ := coverage_succeeds hrules policy d hvalid hsize
  have hguarded : guardedSlices rules policy d .nobody (t.changes d) = .ok slices :=
    guardedSlices_eq_ok hslices (guardedNeed_of_mem_coverage hrules hvalid hsize hslices)
  unfold guardedShortages
  rw [hguarded, ok_bind, shortagesOn_of_coverage hslices]
  exact Shortage.guardedCollect_eq_ok (by simp) fun s hs =>
    (drawn_of_mem_slicesFrom hslices s hs).window

end Team

/-! ## Conflicts -/

def Interval.guardedIntersection (a b : Interval) : Except Fault (Option Interval) := do
  if a.overlaps b then
    let overlap ← between a.day (max a.start b.start) (min a.stop b.stop)
    return some overlap
  else return none

theorem Interval.guardedIntersection_eq_ok {a b : Interval} (ha : a.Valid) (hb : b.Valid) :
    a.guardedIntersection b = .ok (a.intersection b) := by
  cases hoverlaps : a.overlaps b with
  | false =>
      unfold guardedIntersection intersection
      rw [hoverlaps]
      rfl
  | true =>
      have hinter : a.intersection b =
          some ⟨a.day, max a.start b.start, min a.stop b.stop⟩ := by
        unfold intersection
        rw [if_pos hoverlaps]
      have hwindow := between_eq_ok_iff.mpr ⟨rfl, valid_of_intersection ha hb hinter⟩
      unfold guardedIntersection
      rw [if_pos hoverlaps, hwindow, hinter]
      rfl

def Shift.guardedConflictWith (a b : Shift) : Except Fault (Option Conflict) := do
  let overlap? ← a.interval.guardedIntersection b.interval
  return overlap?.map fun overlap => ⟨a.member, a.interval.day, a.id, b.id, overlap⟩

theorem Shift.guardedConflictWith_eq_ok {a b : Shift} (ha : a.interval.Valid)
    (hb : b.interval.Valid) : a.guardedConflictWith b = .ok (a.conflictWith b) := by
  unfold guardedConflictWith
  rw [Interval.guardedIntersection_eq_ok ha hb]
  rfl

def guardedSweep (active : List Shift) (reach : Int) : List Shift → Except Fault (List Conflict)
  | [] => .ok []
  | s :: rest => do
    let running := if reach ≤ s.interval.start then []
      else active.filter fun a => s.interval.start < a.interval.stop
    let found ← running.mapM (·.guardedConflictWith s)
    let later ← guardedSweep (running ++ [s]) (max reach s.interval.stop) rest
    return found.reduceOption ++ later

theorem guardedSweep_eq_ok {active shifts : List Shift} {reach : Int}
    (hactive : ∀ a ∈ active, a.interval.Valid) (hshifts : ∀ s ∈ shifts, s.interval.Valid) :
    guardedSweep active reach shifts = .ok (sweepConflicts active reach shifts) := by
  induction shifts generalizing active reach with
  | nil => rfl
  | cons s rest ih =>
      have hs : s.interval.Valid := hshifts s (by simp)
      have hrunning : ∀ a ∈ (if reach ≤ s.interval.start then []
          else active.filter fun a => decide (s.interval.start < a.interval.stop)),
          a.interval.Valid := by
        intro a ha
        split at ha
        · simp at ha
        · exact hactive a (List.mem_of_mem_filter ha)
      have hself : ∀ a ∈ [s], a.interval.Valid := by simpa using hs
      have hfound := mapM_eq_ok fun a ha => Shift.guardedConflictWith_eq_ok (hrunning a ha) hs
      have hnext := List.forall_mem_append.mpr ⟨hrunning, hself⟩
      have hrest : ∀ u ∈ rest, u.interval.Valid := fun u hu => hshifts u (List.mem_cons_of_mem s hu)
      unfold guardedSweep
      dsimp only
      rw [hfound, ok_bind, ih hnext hrest, ok_bind, List.reduceOption, List.filterMap_map]
      rfl

def guardedConflicts (shifts : List Shift) : Except Fault (List Conflict) := do
  let parts ← (stretches Shift.memberDay (sortBy Shift.sweepKey shifts)).mapM
    fun g => guardedSweep [] 0 g.2
  return parts.flatten

theorem guardedConflicts_eq_ok {shifts : List Shift} (hvalid : ∀ s ∈ shifts, s.interval.Valid) :
    guardedConflicts shifts = .ok (conflicts shifts) := by
  have hparts : (stretches Shift.memberDay (sortBy Shift.sweepKey shifts)).mapM
      (fun g => guardedSweep [] 0 g.2) =
        .ok ((stretches Shift.memberDay (sortBy Shift.sweepKey shifts)).map
          fun g => sweepConflicts [] 0 g.2) := by
    apply mapM_eq_ok
    intro g hg
    apply guardedSweep_eq_ok (by simp)
    intro s hs
    have hmem : s ∈ (stretches Shift.memberDay (sortBy Shift.sweepKey shifts)).flatMap Prod.snd :=
      List.mem_flatMap.mpr ⟨g, hg, hs⟩
    rw [flatMap_stretches, mem_sortBy] at hmem
    exact hvalid s hmem
  unfold guardedConflicts
  rw [hparts]
  rfl

/-! ## Filing -/

namespace Booking

def guardedNormalize (b : Booking) : Except Fault (Except IntervalError Interval) :=
  match b.normalize with
  | .error cause => .ok (.error cause)
  | .ok i => do
    let interval ← Interval.between i.day i.start i.stop
    return .ok interval

def guardedFile (roster : Roster) (b : Booking) : Except Fault (Except Rejection Filed) := do
  match ← b.guardedNormalize with
  | .error cause => return .error (b.reject (.invalidInterval cause))
  | .ok i =>
    match roster.get? b.member with
    | none => return .error (b.reject .unknownMember)
    | some e => return .ok ⟨e, ⟨b.id, b.member, i⟩⟩

theorem guardedNormalize_eq_ok (b : Booking) : b.guardedNormalize = .ok b.normalize := by
  unfold guardedNormalize
  cases hnormal : b.normalize with
  | error cause => rfl
  | ok i =>
      have hvalid : i.Valid := Interval.valid_of_normalize hnormal
      have hbuilt := Interval.between_eq_ok_iff.mpr ⟨rfl, hvalid⟩
      dsimp only
      rw [hbuilt]
      rfl

theorem guardedFile_eq_ok (roster : Roster) (b : Booking) :
    b.guardedFile roster = .ok (b.file roster) := by
  unfold guardedFile file toShift
  rw [guardedNormalize_eq_ok, ok_bind]
  cases b.normalize with
  | error cause => rfl
  | ok i =>
      dsimp only
      cases roster.get? b.member <;> rfl

end Booking

namespace Snapshot

variable {s : Snapshot} {roster : Roster}

def guardedIntake (s : Snapshot) (roster : Roster) : Except Fault Intake := do
  let filed ← s.bookings.mapM (Booking.guardedFile roster)
  return {
    teams := Intake.teamsOf (filed.filterMap fun | .ok f => some f | .error _ => none)
    rejected := filed.filterMap fun | .ok _ => none | .error e => some e }

theorem guardedIntake_eq_ok (s : Snapshot) (roster : Roster) :
    s.guardedIntake roster = .ok (Intake.ofSnapshot s roster) := by
  unfold guardedIntake
  rw [mapM_eq_ok fun b _ => Booking.guardedFile_eq_ok roster b]
  rfl

end Snapshot

/-! ## The report -/

def Team.guardedAssemble (t : Team) (project : ProjectId) (rules : Rules) (policy : Policy) :
    Except Fault Report := do
  let found ← guardedConflicts t.staff
  let shortages ← Weekday.all.mapM (t.guardedShortages project rules policy)
  return .ofEntries (found.map .conflict ++ shortages.flatten.map .shortage) []

def Snapshot.guardedValidate (s : Snapshot) (roster : Roster) (rules : Rules) (policy : Policy) :
    Except Fault Report := do
  let intake ← s.guardedIntake roster
  let parts ← intake.teams.mapM fun (project, team) => team.guardedAssemble project rules policy
  return (Report.merge parts).addRejections intake.rejected

namespace Team

variable {t : Team} {rules : Rules}

theorem guardedAssemble_eq_ok (project : ProjectId) (hrules : rules.Accepted) (policy : Policy)
    (hvalid : ∀ s ∈ t.stays, s.interval.Valid) (hsize : t.stays.length < capacity 32) :
    t.guardedAssemble project rules policy =
      .ok (.ofEntries (t.findings project rules policy) []) := by
  unfold guardedAssemble
  rw [guardedConflicts_eq_ok (valid_staff_of_stays hvalid), ok_bind,
    mapM_eq_ok fun d _ => guardedShortages_eq_ok project hrules policy hvalid hsize d]
  simp [bind, Except.bind, pure, Except.pure, findings, List.flatMap]

end Team

namespace Snapshot

variable {s : Snapshot} {roster : Roster} {rules : Rules}

/-- The report on a snapshot passes all guards. -/
theorem guardedValidate_eq_ok (hrules : rules.Accepted) (policy : Policy)
    (hsize : s.size < capacity 32) :
    s.guardedValidate roster rules policy = .ok (s.reportOf roster rules policy) := by
  have hparts : (Intake.ofSnapshot s roster).teams.mapM
      (fun t => t.2.guardedAssemble t.1 rules policy) =
        .ok ((Intake.ofSnapshot s roster).teams.map
          fun t => .ofEntries (t.2.findings t.1 rules policy) []) := by
    apply mapM_eq_ok
    intro t ht
    rw [teams_ofSnapshot] at ht
    obtain ⟨g, hg, rfl⟩ := List.mem_map.mp ht
    have hlength := length_stays_le_size hg
    exact Team.guardedAssemble_eq_ok g.1 hrules policy (valid_stays_of_mem_groups hg)
      (Nat.lt_of_le_of_lt hlength hsize)
  unfold guardedValidate
  rw [guardedIntake_eq_ok, ok_bind]
  dsimp only
  rw [hparts]
  exact congrArg Except.ok merge_teams

end Snapshot

end NurseryRota
