import NurseryRota.Proofs.CachedWeek

/-!
# Independent edits commute

Edits of different keys may be applied in either order: an edit sets one entry of one table, and
entries at different keys do not disturb each other.  A cached rota also keeps which days are
stale.  A roster edit touches the days that its member is booked on at that moment, which a shift
edit may have changed; but it has changed only tables of days that it touches itself, so the days
that the two edits touch between them are the same in both orders.
-/

namespace NurseryRota

namespace Table

universe u

variable {α : Type u}

/-- The table with another entry at an identifier, or with none there. -/
def put (t : Table α) (k : Uuid) : Option α → Table α
  | some v => t.insert k v
  | none => t.erase k

theorem get?_put (t : Table α) (k j : Uuid) (entry : Option α) :
    (t.put k entry).get? j = if j = k then entry else t.get? j := by
  cases entry with
  | some v => exact get?_insert t k j v
  | none => exact get?_erase t k j

theorem put_comm {j k : Uuid} (h : j ≠ k) (t : Table α) (x y : Option α) :
    (t.put j x).put k y = (t.put k y).put j x := by
  apply ext_get?
  intro i
  simp only [get?_put]
  by_cases hk : i = k
  · simp [hk, h.symm]
  · simp [hk]

end Table

namespace Edit

/-- The key of an edit: the member or the shift that it is about. -/
def subject : Edit → MemberId ⊕ ShiftId
  | memberRegistered id _ => .inl id
  | memberRemoved id => .inl id
  | shiftAdded booking => .inr booking.id
  | shiftUpdated booking => .inr booking.id
  | shiftRemoved id => .inr id

def enrolment? : Edit → Option Enrolment
  | memberRegistered _ enrolment => some enrolment
  | _ => none

/-- What the edit makes of a roster. -/
def onRoster (e : Edit) (roster : Roster) : Roster :=
  match e.subject with
  | .inl id => roster.put id e.enrolment?
  | .inr _ => roster

/-- What the edit makes of a table that keeps some of the bookings. -/
def onBookings (e : Edit) (keep : Booking → Bool) (t : Table Booking) : Table Booking :=
  match e.subject with
  | .inl _ => t
  | .inr id => t.put id (e.booking?.filter keep)

variable {e f : Edit}

theorem onBookings_shiftRemoved (id : ShiftId) (keep : Booking → Bool) (t : Table Booking) :
    (shiftRemoved id).onBookings keep t = t.erase id := rfl

theorem onBookings_of_booking {b : Booking} (hsubject : e.subject = .inr b.id)
    (hbooking : e.booking? = some b) (keep : Booking → Bool) (t : Table Booking) :
    e.onBookings keep t = if keep b then t.insert b.id b else t.erase b.id := by
  unfold onBookings
  rw [hsubject, hbooking, Option.filter_some]
  dsimp only
  split <;> rfl

theorem get?_onBookings {j : ShiftId} (h : e.subject ≠ .inr j) (keep : Booking → Bool)
    (t : Table Booking) : (e.onBookings keep t).get? j = t.get? j := by
  unfold onBookings
  cases he : e.subject with
  | inl m => rfl
  | inr i =>
      have hji : j ≠ i := by
        intro hji
        exact h (by rw [he, hji])
      exact (Table.get?_put t i j _).trans (if_neg hji)

theorem onRoster_comm (h : e.subject ≠ f.subject) (roster : Roster) :
    f.onRoster (e.onRoster roster) = e.onRoster (f.onRoster roster) := by
  unfold onRoster
  cases he : e.subject with
  | inr i => rfl
  | inl m =>
      cases hf : f.subject with
      | inr j => rfl
      | inl n =>
          have hmn : m ≠ n := by
            intro hmn
            exact h (by rw [he, hf, hmn])
          exact Table.put_comm hmn roster _ _

theorem onBookings_comm (h : e.subject ≠ f.subject) (keep : Booking → Bool) (t : Table Booking) :
    f.onBookings keep (e.onBookings keep t) = e.onBookings keep (f.onBookings keep t) := by
  unfold onBookings
  cases he : e.subject with
  | inl m => rfl
  | inr i =>
      cases hf : f.subject with
      | inl n => rfl
      | inr j =>
          have hij : i ≠ j := by
            intro hij
            exact h (by rw [he, hf, hij])
          exact Table.put_comm hij t _ _

end Edit

namespace Rota

variable {e f : Edit}

theorem apply_eq (r : Rota) (e : Edit) :
    r.apply e = ⟨e.onRoster r.roster, e.onBookings (fun _ => true) r.shifts⟩ := by
  cases e <;> rfl

theorem apply_comm (h : e.subject ≠ f.subject) (r : Rota) :
    (r.apply e).apply f = (r.apply f).apply e := by
  simp only [apply_eq, Edit.onRoster_comm h, Edit.onBookings_comm h]

end Rota

/-! ## Cached rotas -/

namespace CachedRota

/-- The edit takes a booking from those that are kept, or puts one among them. -/
def moves (c : CachedRota) (e : Edit) (keep : Booking → Bool) : Bool :=
  match e.subject with
  | .inl _ => false
  | .inr id => (c.bookings.get? id).any keep || e.booking?.any keep

/-- The edit makes the day stale. -/
def touches (c : CachedRota) (e : Edit) (d : Weekday) : Bool :=
  match e.subject with
  | .inl member => c.isBookedOn member d
  | .inr _ => c.moves e fun b => b.day = d.number

/-- What an edit makes of a cached rota, table by table. -/
structure Takes (c : CachedRota) (e : Edit) (c' : CachedRota) : Prop where
  rules : c'.rules = c.rules
  policy : c'.policy = c.policy
  revalidated : c'.revalidated = c.revalidated
  roster : c'.roster = e.onRoster c.roster
  bookings : c'.bookings = e.onBookings (fun _ => true) c.bookings
  days : ∀ d, c'.days.get d = if c.moves e fun b => b.day = d.number then
    e.onBookings (fun b => b.day = d.number) (c.days.get d) else c.days.get d
  undated : c'.undated = if c.moves e fun b => b.weekday? = none then
    e.onBookings (fun b => b.weekday? = none) c.undated else c.undated
  reports : ∀ d, c'.reports.get d = if c.touches e d then none else c.reports.get d

variable {c c' : CachedRota} {e f : Edit}

theorem takes_of_member {id : MemberId} (hsubject : e.subject = .inl id) (c : CachedRota) :
    Takes c e ({ c with roster := e.onRoster c.roster }.touchMember id) := by
  obtain ⟨reports, htouched, hreports⟩ :=
    touchMember_eq { c with roster := e.onRoster c.roster } id
  rw [htouched]
  constructor <;> try rfl
  · simp [Edit.onBookings, hsubject]
  · simp [moves, hsubject]
  · simp [moves, hsubject]
  · intro d
    have hbooked : CachedRota.isBookedOn { c with roster := e.onRoster c.roster } id d =
        c.isBookedOn id d := rfl
    dsimp only
    rw [hreports, hbooked]
    simp only [touches, hsubject]

theorem revalidated_unbook (c : CachedRota) (id : ShiftId) :
    (c.unbook id).revalidated = c.revalidated := by
  unfold unbook
  split
  · rfl
  · split <;> rfl

theorem revalidated_book (c : CachedRota) (b : Booking) :
    (c.book b).revalidated = c.revalidated := by
  unfold book
  dsimp only
  split <;> rfl

theorem moves_shiftRemoved (c : CachedRota) (id : ShiftId) (keep : Booking → Bool) :
    c.moves (.shiftRemoved id) keep = (c.bookings.get? id).any keep := Bool.or_false _

theorem takes_unbook (c : CachedRota) (id : ShiftId) :
    Takes c (.shiftRemoved id) (c.unbook id) := by
  have hrevalidated := revalidated_unbook c id
  cases hold : c.bookings.get? id with
  | none =>
      have hsame : c.unbook id = c := by
        unfold unbook
        rw [hold]
      rw [hsame]
      constructor <;> try rfl
      · exact (Table.erase_eq_self hold).symm
      · simp [moves_shiftRemoved, hold]
      · simp [moves_shiftRemoved, hold]
      · simp [touches, Edit.subject, moves_shiftRemoved, hold]
  | some old =>
      have hrefiled := refiled_unbook hold
      constructor
      · exact hrefiled.rules
      · exact hrefiled.policy
      · exact hrevalidated
      · exact hrefiled.roster
      · exact hrefiled.bookings
      · intro d
        simp [hrefiled.days, moves_shiftRemoved, hold, Edit.onBookings_shiftRemoved]
      · simp [hrefiled.undated, moves_shiftRemoved, hold, Edit.onBookings_shiftRemoved]
      · intro d
        simp [hrefiled.reports, touches, Edit.subject, moves_shiftRemoved, hold]

section Rebooking

variable {b : Booking} (hsubject : e.subject = .inr b.id) (hbooking : e.booking? = some b)

include hsubject hbooking

theorem moves_of_booking (c : CachedRota) (keep : Booking → Bool) :
    c.moves e keep = (c.moves (.shiftRemoved b.id) keep || keep b) := by
  rw [moves_shiftRemoved]
  unfold moves
  rw [hsubject, hbooking]
  rfl

/-- Taking a booking out and putting the one of the same id in sets one entry of a table. -/
theorem insert_after_erase (c : CachedRota) (keep : Booking → Bool) (t : Table Booking) :
    (if keep b then
        (if c.moves (.shiftRemoved b.id) keep then t.erase b.id else t).insert b.id b
      else if c.moves (.shiftRemoved b.id) keep then t.erase b.id else t) =
      if c.moves e keep then e.onBookings keep t else t := by
  rw [moves_of_booking hsubject hbooking, Edit.onBookings_of_booking hsubject hbooking]
  by_cases hkeep : keep b
  · by_cases hold : c.moves (.shiftRemoved b.id) keep
    · simp [hkeep, hold, Table.insert_erase]
    · simp [hkeep, hold]
  · simp [hkeep]

theorem takes_rebook (c : CachedRota) : Takes c e ((c.unbook b.id).book b) := by
  have hout := takes_unbook c b.id
  have hin := refiled_book (c.unbook b.id) b
  have hrevalidated := revalidated_book (c.unbook b.id) b
  have hroster : e.onRoster c.roster = c.roster := by
    unfold Edit.onRoster
    rw [hsubject]
  constructor
  · exact hin.rules.trans hout.rules
  · exact hin.policy.trans hout.policy
  · exact hrevalidated.trans hout.revalidated
  · exact hin.roster.trans (hout.roster.trans hroster.symm)
  · rw [hin.bookings, hout.bookings, Edit.onBookings_of_booking hsubject hbooking]
    exact Table.insert_erase c.bookings b.id b
  · intro d
    have hmerged := insert_after_erase hsubject hbooking c (fun b => b.day = d.number)
      (c.days.get d)
    rw [hin.days, hout.days, ← hmerged]
    simp only [Edit.onBookings_shiftRemoved, decide_eq_true_eq]
  · have hmerged := insert_after_erase hsubject hbooking c (fun b => b.weekday? = none) c.undated
    rw [hin.undated, hout.undated, ← hmerged]
    simp only [Edit.onBookings_shiftRemoved, decide_eq_true_eq]
  · intro d
    have htouches : c.touches e d =
        (c.touches (.shiftRemoved b.id) d || decide (b.day = d.number)) := by
      have hmoves := moves_of_booking hsubject hbooking c fun b => b.day = d.number
      unfold touches
      rw [hsubject]
      exact hmoves
    rw [hin.reports, hout.reports, htouches]
    by_cases hday : b.day = d.number
    · simp [hday]
    · simp [hday]

end Rebooking

theorem takes_apply (c : CachedRota) (e : Edit) : Takes c e (c.apply e) := by
  cases e with
  | memberRegistered id m => exact takes_of_member rfl c
  | memberRemoved id => exact takes_of_member rfl c
  | shiftAdded b => exact takes_rebook rfl rfl c
  | shiftUpdated b => exact takes_rebook rfl rfl c
  | shiftRemoved id => exact takes_unbook c id

/-! ## Either order -/

theorem moves_apply (h : e.subject ≠ f.subject) (c : CachedRota) (keep : Booking → Bool) :
    (c.apply e).moves f keep = c.moves f keep := by
  unfold moves
  cases hf : f.subject with
  | inl m => rfl
  | inr j =>
      rw [hf] at h
      dsimp only
      rw [(takes_apply c e).bookings, Edit.get?_onBookings h]

theorem days_apply_of_not_touched {d : Weekday} (h : c.touches e d = false) :
    (c.apply e).days.get d = c.days.get d := by
  rw [(takes_apply c e).days]
  cases he : e.subject with
  | inl m => simp [Edit.onBookings, he]
  | inr i =>
      have hmoves : (c.moves e fun b => decide (b.day = d.number)) = false := by
        unfold touches at h
        rwa [he] at h
      simp [hmoves]

/-- An edit decides which days another one touches only where it touches them itself. -/
theorem touches_apply (h : e.subject ≠ f.subject) {d : Weekday} (hd : c.touches e d = false) :
    (c.apply e).touches f d = c.touches f d := by
  unfold touches
  cases hf : f.subject with
  | inl m =>
      dsimp only
      unfold isBookedOn
      rw [days_apply_of_not_touched hd]
  | inr j => exact moves_apply h c _

theorem days_apply_comm (h : e.subject ≠ f.subject) (c : CachedRota) (d : Weekday) :
    ((c.apply e).apply f).days.get d = ((c.apply f).apply e).days.get d := by
  rw [(takes_apply (c.apply e) f).days, (takes_apply (c.apply f) e).days, (takes_apply c e).days,
    (takes_apply c f).days, moves_apply h, moves_apply h.symm]
  have hcomm := Edit.onBookings_comm h (fun b => b.day = d.number) (c.days.get d)
  split <;> split <;> first | rfl | exact hcomm

theorem undated_apply_comm (h : e.subject ≠ f.subject) (c : CachedRota) :
    ((c.apply e).apply f).undated = ((c.apply f).apply e).undated := by
  rw [(takes_apply (c.apply e) f).undated, (takes_apply (c.apply f) e).undated,
    (takes_apply c e).undated, (takes_apply c f).undated, moves_apply h, moves_apply h.symm]
  have hcomm := Edit.onBookings_comm h (fun b => b.weekday? = none) c.undated
  split <;> split <;> first | rfl | exact hcomm

theorem reports_apply_comm (h : e.subject ≠ f.subject) (c : CachedRota) (d : Weekday) :
    ((c.apply e).apply f).reports.get d = ((c.apply f).apply e).reports.get d := by
  rw [(takes_apply (c.apply e) f).reports, (takes_apply (c.apply f) e).reports,
    (takes_apply c e).reports, (takes_apply c f).reports]
  cases he : c.touches e d with
  | true =>
      cases hf : c.touches f d with
      | true => simp
      | false => simp [touches_apply h.symm hf, he]
  | false =>
      cases hf : c.touches f d with
      | true => simp [touches_apply h he, hf]
      | false => simp [touches_apply h he, touches_apply h.symm hf, he, hf]

end CachedRota

theorem ByDay.ext_get {α : Type*} {s t : ByDay α} (h : ∀ d, s.get d = t.get d) : s = t := by
  have hvalues : s.values = t.values := by
    apply Vector.ext
    intro i hi
    have hindex : ∀ n : Fin Weekday.all.length, ((Weekday.all.get n).index : Nat) = n := by decide
    rcases (⟨_, hindex ⟨i, hi⟩⟩ : ∃ d : Weekday, (d.index : Nat) = i) with ⟨d, rfl⟩
    exact h d
  cases s
  cases t
  exact congrArg ByDay.mk hvalues

namespace CachedRota

variable {c : CachedRota} {e f : Edit}

theorem apply_comm (h : e.subject ≠ f.subject) (c : CachedRota) :
    (c.apply e).apply f = (c.apply f).apply e := by
  have hef := takes_apply (c.apply e) f
  have hfe := takes_apply (c.apply f) e
  have he := takes_apply c e
  have hf := takes_apply c f
  have hrules := (hef.rules.trans he.rules).trans (hfe.rules.trans hf.rules).symm
  have hpolicy := (hef.policy.trans he.policy).trans (hfe.policy.trans hf.policy).symm
  have hrevalidated := (hef.revalidated.trans he.revalidated).trans
    (hfe.revalidated.trans hf.revalidated).symm
  have hroster : ((c.apply e).apply f).roster = ((c.apply f).apply e).roster := by
    rw [hef.roster, he.roster, hfe.roster, hf.roster, Edit.onRoster_comm h]
  have hbookings : ((c.apply e).apply f).bookings = ((c.apply f).apply e).bookings := by
    rw [hef.bookings, he.bookings, hfe.bookings, hf.bookings, Edit.onBookings_comm h]
  have hdays := ByDay.ext_get (days_apply_comm h c)
  have hreports := ByDay.ext_get (reports_apply_comm h c)
  have hundated := undated_apply_comm h c
  cases hc₁ : (c.apply e).apply f
  cases hc₂ : (c.apply f).apply e
  rw [hc₁, hc₂] at hrules hpolicy hrevalidated hroster hbookings hdays hreports hundated
  rw [CachedRota.mk.injEq]
  exact ⟨hrules, hpolicy, hroster, hbookings, hdays, hundated, hreports, hrevalidated⟩

theorem mem_staleDays {d : Weekday} : d ∈ c.staleDays ↔ c.reports.get d = none := by
  simp [staleDays, Weekday.mem_all]

theorem mem_staleDays_apply {d : Weekday} :
    d ∈ (c.apply e).staleDays ↔ c.touches e d = true ∨ d ∈ c.staleDays := by
  rw [mem_staleDays, mem_staleDays, (takes_apply c e).reports]
  split
  · next htouches => simp [htouches]
  · next htouches => simp [htouches]

/-- Two edits make stale what each of them would touch if it came first. -/
theorem mem_staleDays_apply_apply (h : e.subject ≠ f.subject) {d : Weekday} :
    d ∈ ((c.apply e).apply f).staleDays ↔
      d ∈ c.staleDays ∨ c.touches e d = true ∨ c.touches f d = true := by
  rw [mem_staleDays_apply, mem_staleDays_apply]
  cases he : c.touches e d with
  | true => simp
  | false => simp [touches_apply h he, or_comm]

end CachedRota

/-- Edits of different keys may change places: the rota comes out the same, with its history, and
so does a cached rota, with its stale days and its report.  It does not matter what has been
reported before. -/
theorem independent_edits_commute {e f : Edit} (h : e.subject ≠ f.subject) (r : Rota)
    (c : CachedRota) :
    let r₁ := (r.apply e).apply f
    let r₂ := (r.apply f).apply e
    let c₁ := (c.apply e).apply f
    let c₂ := (c.apply f).apply e
    (r₁.roster = r₂.roster ∧ r₁.shifts = r₂.shifts ∧ r₁.history = r₂.history) ∧
      (c₁.roster = c₂.roster ∧ c₁.shiftCount = c₂.shiftCount ∧ c₁.report = c₂.report) ∧
      c₁.staleDays = c₂.staleDays ∧ ∀ d, d ∈ c₁.staleDays ↔
        d ∈ c.staleDays ∨ c.touches e d = true ∨ c.touches f d = true := by
  intro r₁ r₂ c₁ c₂
  have hrota : r₁ = r₂ := Rota.apply_comm h r
  have hcached : c₁ = c₂ := CachedRota.apply_comm h c
  rw [hrota]
  refine ⟨⟨rfl, rfl, rfl⟩, ?_, ?_, fun d => CachedRota.mem_staleDays_apply_apply h⟩
  · rw [hcached]
    exact ⟨rfl, rfl, rfl⟩
  · rw [hcached]

/-- The member of a booking is enrolled while the booking moves from Thursday to Tuesday: enrolled
first, the member is found on Thursday, and enrolled last on Tuesday. -/
theorem independent_edits_commute_moved_booking :
    let s : Snapshot := ⟨[⟨.ofNat 1, .ofNat 7, 4, 480, 720⟩], by decide⟩
    let c := (CachedRota.ofSnapshot s ∅ ⟨3, 4, 8⟩ .pooled).report.1
    let e : Edit := .memberRegistered (.ofNat 7) ⟨.ofNat 3, .staff⟩
    let f : Edit := .shiftUpdated ⟨.ofNat 1, .ofNat 7, 2, 540, 600⟩
    let c₁ := (c.apply e).apply f
    let c₂ := (c.apply f).apply e
    e.subject ≠ f.subject ∧ c.staleDays = [] ∧ c₁.staleDays = [.tuesday, .thursday] ∧
      c₁.staleDays = c₂.staleDays ∧ c₁.report = c₂.report := by
  intro s c e f c₁ c₂
  have hsubject : e.subject ≠ f.subject := by decide
  have hcommute := independent_edits_commute hsubject .empty c
  refine ⟨hsubject, ?_, ?_, hcommute.2.2.1, hcommute.2.1.2.2⟩
  · decide +kernel
  · decide +kernel

end NurseryRota
