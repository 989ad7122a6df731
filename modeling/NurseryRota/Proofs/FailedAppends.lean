import NurseryRota.Proofs.StoreRuns
import NurseryRota.Proofs.Truncation

/-!
# Appends that fail

A failed append is not undone: the bytes that reached the file stay there, in front of whatever
is recorded next.  The trail of a store is the state of its last rewrite and the appends since;
memory is built by those that were acknowledged, and a store opened later by the frames that are
read from all their bytes.  The two agree as long as no failed append has left a byte behind.
-/

namespace NurseryRota

structure Append where
  batch : List Edit
  fate : WriteFate

namespace Append

def bytes (a : Append) : Bytes := Journal.reaching a.batch a.fate

def acknowledged (a : Append) : Bool := (Journal.answer a.batch a.fate).isNone

/-- The append succeeded, or left nothing in the file. -/
def Clean (a : Append) : Prop := a.acknowledged = true ∨ a.bytes = []

def acknowledgedEdits (as : List Append) : List Edit :=
  (as.filter acknowledged).flatMap batch

theorem bytes_of_acknowledged {a : Append} (h : a.acknowledged = true) :
    a.bytes = Frame.ofEdits a.batch := by
  obtain ⟨batch, fate⟩ := a
  unfold acknowledged Journal.answer at h
  unfold bytes Journal.reaching
  dsimp only at h ⊢
  split at h
  · next hempty =>
      subst hempty
      exact Journal.reaching_nil fate
  · cases fate with
    | complete => rfl
    | failed written => cases h
    | refused => cases h

/-- What a failed append left in the file reads as whole edits of its batch, from the front. -/
theorem exists_edits_of_failed (a : Append) (hfailed : a.acknowledged = false) :
    ∃ n, (Recovery.ofBytes a.bytes).edits = a.batch.take n := by
  obtain ⟨batch, fate⟩ := a
  cases fate with
  | complete =>
      unfold acknowledged at hfailed
      rw [Journal.answer_of_complete] at hfailed
      cases hfailed
  | failed written => exact Recovery.exists_edits_take batch written
  | refused => exact ⟨0, Intact.nil.edits_eq⟩

theorem acknowledgedEdits_append (as bs : List Append) :
    acknowledgedEdits (as ++ bs) = acknowledgedEdits as ++ acknowledgedEdits bs := by
  unfold acknowledgedEdits
  rw [List.filter_append, List.flatMap_append]

theorem flatMap_bytes_of_clean {as : List Append} (h : ∀ a ∈ as, a.Clean) :
    as.flatMap bytes = Frame.ofEdits (acknowledgedEdits as) := by
  induction as with
  | nil => rfl
  | cons a as ih =>
      have htail := ih fun b hb => h b (List.mem_cons_of_mem a hb)
      rw [List.flatMap_cons, htail]
      unfold acknowledgedEdits
      cases hack : a.acknowledged with
      | true =>
          rw [List.filter_cons_of_pos hack, List.flatMap_cons, Frame.ofEdits_append,
            bytes_of_acknowledged hack]
      | false =>
          have hnil : a.bytes = [] := by
            rcases h a (by simp) with hclean | hclean
            · rw [hack] at hclean
              cases hclean
            · exact hclean
          rw [List.filter_cons_of_neg (by simp [hack]), hnil, List.nil_append]

end Append

/-- The state of a journal when it was opened or last rewritten, and the appends since. -/
structure Trail where
  trunk : Rota
  since : List Append

namespace Trail

def memory (t : Trail) : Rota := t.trunk.applyAll (Append.acknowledgedEdits t.since)

def replayed (t : Trail) : Rota :=
  t.trunk.applyAll (Recovery.ofBytes (t.since.flatMap Append.bytes)).edits

def extend (t : Trail) (a : Append) : Trail := ⟨t.trunk, t.since ++ [a]⟩

def after (t : Trail) (a : Append) (rewritten : Bool) : Trail :=
  if rewritten then ⟨(t.extend a).memory, []⟩ else t.extend a

theorem memory_extend (t : Trail) (a : Append) :
    (t.extend a).memory = if a.acknowledged then t.memory.applyAll a.batch else t.memory := by
  unfold memory extend
  dsimp only
  rw [Append.acknowledgedEdits_append, Rota.applyAll_append]
  unfold Append.acknowledgedEdits
  cases hack : a.acknowledged with
  | true => simp [hack]
  | false =>
      simp [hack]
      rfl

theorem memory_after (t : Trail) (a : Append) (rewritten : Bool) :
    (t.after a rewritten).memory = (t.extend a).memory := by
  unfold after
  split
  · rfl
  · rfl

theorem replayed_of_clean {t : Trail} (h : ∀ a ∈ t.since, a.Clean) : t.replayed = t.memory := by
  have hintact := Intact.ofEdits (Append.acknowledgedEdits t.since)
  rw [← Append.flatMap_bytes_of_clean h] at hintact
  unfold replayed memory
  rw [hintact.edits_eq]

/-- An append that failed after clean ones brings whole edits of its batch back, from the front. -/
theorem replayed_of_failed_last {t : Trail} {a : Append} (h : ∀ b ∈ t.since, b.Clean)
    (hfailed : a.acknowledged = false) :
    ∃ n, (t.extend a).replayed = (t.extend a).memory.applyAll (a.batch.take n) := by
  obtain ⟨n, hn⟩ := a.exists_edits_of_failed hfailed
  have hintact := Intact.ofEdits (Append.acknowledgedEdits t.since)
  rw [← Append.flatMap_bytes_of_clean h] at hintact
  refine ⟨n, ?_⟩
  rw [memory_extend, hfailed, if_neg Bool.false_ne_true]
  unfold replayed extend memory
  dsimp only
  rw [List.flatMap_append, List.flatMap_singleton, hintact.ofBytes_append, hn,
    Rota.applyAll_append]

end Trail

namespace Session

variable {p : Path} {s : Session} {t : Trail}

def trail (p : Path) (s : Session) (t : Trail) : List (List Edit × RecordFate) → Trail
  | [] => t
  | (batch, fate) :: records =>
    (s.step p (.record batch fate)).1.trail p
      (t.after ⟨batch, fate.append⟩ (s.store.rewrites s.disk batch fate)) records

/-- The store has a trail: its memory and its file are what the trail says. -/
structure Leaves (p : Path) (s : Session) (t : Trail) : Prop where
  memory : s.store.rota = t.memory
  keyed : t.trunk.shifts.Keyed
  file : ∃ base es, Store.Backed s.disk s.store p (base ++ t.since.flatMap Append.bytes) ∧
    Intact base es ∧ Rota.ofHistory es = t.trunk

theorem Leaves.record (h : Leaves p s t) (batch : List Edit) (fate : RecordFate) :
    Leaves p (s.step p (.record batch fate)).1
      (t.after ⟨batch, fate.append⟩ (s.store.rewrites s.disk batch fate)) := by
  obtain ⟨base, es, hbacked, hintact, hes⟩ := h.file
  have hfollows := hbacked.record batch fate
  have hmemory : (s.store.record s.disk batch fate).store.rota =
      (t.extend ⟨batch, fate.append⟩).memory := by
    rw [hfollows.rota, hfollows.failure, h.memory, Trail.memory_extend]
    unfold Append.acknowledged
    simp only [Option.isNone_iff_eq_none]
  have hfile := hfollows.backed
  constructor
  · rw [Trail.memory_after]
    exact hmemory
  · unfold Trail.after
    split
    · exact Rota.keyed_applyAll h.keyed _
    · exact h.keyed
  · unfold Store.contentAfter at hfile
    unfold Trail.after
    cases hrewrites : s.store.rewrites s.disk batch fate with
    | true =>
        have hacknowledged := Store.failure_of_rewrites hrewrites
        have hstate : s.store.rota.applyAll batch = (t.extend ⟨batch, fate.append⟩).memory := by
          rw [← hmemory, hfollows.rota, if_pos hacknowledged]
        rw [if_pos hrewrites, hstate] at hfile
        rw [if_pos rfl]
        refine ⟨_, (t.extend ⟨batch, fate.append⟩).memory.history, ?_, Intact.ofEdits _, ?_⟩
        · rw [List.flatMap_nil, List.append_nil]
          exact hfile
        · exact Rota.ofHistory_history (Rota.keyed_applyAll h.keyed _)
    | false =>
        rw [if_neg (by simp [hrewrites]), List.append_assoc] at hfile
        rw [if_neg Bool.false_ne_true]
        refine ⟨base, es, ?_, hintact, hes⟩
        unfold Trail.extend
        dsimp only
        rw [List.flatMap_append, List.flatMap_singleton]
        exact hfile

theorem Leaves.run (h : Leaves p s t) (records : List (List Edit × RecordFate)) :
    Leaves p (s.run p (records.map fun r => .record r.1 r.2)).1 (s.trail p t records) := by
  induction records generalizing s t with
  | nil => exact h
  | cons r records ih => exact ih (h.record r.1 r.2)

theorem Leaves.reopens (h : Leaves p s t) :
    ∃ d' s', Store.ofJournal s.disk p = (d', .ok s') ∧ s'.rota = t.replayed := by
  obtain ⟨base, es, hbacked, hintact, hes⟩ := h.file
  obtain ⟨d', s', hopen, hrota, -⟩ := hbacked.ofJournal
  refine ⟨d', s', hopen, ?_⟩
  rw [hrota, hintact.ofBytes_append, Rota.ofHistory_append, hes]
  rfl

theorem leaves_of_admits {d : Disk} {held : Option Bytes} (h : d.Admits p held)
    (threshold : Nat) :
    Leaves p ((start d).step p (.reopen threshold)).1
      ⟨((start d).step p (.reopen threshold)).1.store.rota, []⟩ := by
  obtain ⟨-, hrota, content, es, hbacked, hintact, hes⟩ := inStep_of_admits h threshold
  refine ⟨rfl, ?_, content, es, ?_, hintact, hes⟩
  · dsimp only
    rw [hrota]
    exact Rota.keyed_ofHistory _
  · rw [List.flatMap_nil, List.append_nil]
    exact hbacked

theorem memory_trail (p : Path) (s : Session) (t : Trail)
    (records : List (List Edit × RecordFate)) :
    (s.trail p t records).memory =
      t.memory.applyAll (Append.acknowledgedEdits (records.map fun r => ⟨r.1, r.2.append⟩)) := by
  induction records generalizing s t with
  | nil => rfl
  | cons r records ih =>
      have hsplit : Append.acknowledgedEdits
          ((r :: records).map fun r => (⟨r.1, r.2.append⟩ : Append)) =
            Append.acknowledgedEdits [⟨r.1, r.2.append⟩] ++
              Append.acknowledgedEdits (records.map fun r => ⟨r.1, r.2.append⟩) :=
        Append.acknowledgedEdits_append [⟨r.1, r.2.append⟩] _
      have hone := Trail.memory_extend ⟨t.memory, []⟩ ⟨r.1, r.2.append⟩
      change t.memory.applyAll (Append.acknowledgedEdits [⟨r.1, r.2.append⟩]) = _ at hone
      unfold trail
      rw [ih, Trail.memory_after, hsplit, Rota.applyAll_append, hone, Trail.memory_extend]
      rfl

/-- After a run of records of which some may have failed, memory holds what was acknowledged, and
a store opened then holds what is read from all the bytes that were left since the journal was
last rewritten.  It agrees with memory when every failed append since then left none. -/
theorem run_failed_appends {d : Disk} {held : Option Bytes} (h : d.Admits p held)
    (threshold : Nat) (records : List (List Edit × RecordFate)) :
    let opened := ((start d).step p (.reopen threshold)).1
    let after := (opened.run p (records.map fun r => .record r.1 r.2)).1
    let t := opened.trail p ⟨opened.store.rota, []⟩ records
    after.store.rota = Rota.ofHistory ((Recovery.ofBytes (held.getD [])).edits ++
        Append.acknowledgedEdits (records.map fun r => ⟨r.1, r.2.append⟩)) ∧
      ∃ d' s', Store.ofJournal after.disk p = (d', .ok s') ∧ s'.rota = t.replayed ∧
        (s'.rota = after.store.rota ↔ t.replayed = t.memory) ∧
        ((∀ a ∈ t.since, a.Clean) → s'.rota = after.store.rota) := by
  intro opened after t
  have hleaves : Leaves p after t := (leaves_of_admits h threshold).run records
  have hopened : opened.store.rota = Rota.ofHistory (Recovery.ofBytes (held.getD [])).edits :=
    (inStep_of_admits h threshold).2.rota
  have hmemory : t.memory = opened.store.rota.applyAll
      (Append.acknowledgedEdits (records.map fun r => ⟨r.1, r.2.append⟩)) :=
    memory_trail p opened ⟨opened.store.rota, []⟩ records
  obtain ⟨d', s', hopen, hrota⟩ := hleaves.reopens
  refine ⟨?_, d', s', hopen, hrota, ?_, ?_⟩
  · rw [hleaves.memory, hmemory, hopened, Rota.ofHistory_append]
  · rw [hrota, hleaves.memory]
  · intro hclean
    rw [hrota, hleaves.memory]
    exact Trail.replayed_of_clean hclean

/-- A refused append leaves nothing behind, and the batch after it is found again. -/
theorem run_failed_appends_refused :
    let p := Path.ofText "rota.journal"
    let opened := ((start ⟨[]⟩).step p (.reopen 1000)).1
    let records : List (List Edit × RecordFate) :=
      [([.shiftAdded ⟨.ofNat 1, .ofNat 1, 1, 480, 720⟩], ⟨.refused, .complete⟩),
        ([.memberRegistered (.ofNat 1) ⟨.ofNat 9, .staff⟩], .complete)]
    let after := (opened.run p (records.map fun r => .record r.1 r.2)).1
    ∃ d' s', Store.ofJournal after.disk p = (d', .ok s') ∧ s'.rota = after.store.rota := by
  have hadmits : Disk.Admits ⟨[]⟩ (Path.ofText "rota.journal") none := by
    refine ⟨⟨_, rfl⟩, ?_, ?_, #["rota.journal"], ?_, ?_⟩ <;> decide
  obtain ⟨-, d', s', hopen, -, -, hclean⟩ := run_failed_appends hadmits 1000
    [([.shiftAdded ⟨.ofNat 1, .ofNat 1, 1, 480, 720⟩], ⟨.refused, .complete⟩),
      ([.memberRegistered (.ofNat 1) ⟨.ofNat 9, .staff⟩], .complete)]
  refine ⟨d', s', hopen, hclean ?_⟩
  intro a ha
  rcases List.mem_cons.mp ha with rfl | ha
  · exact Or.inr rfl
  · rw [List.mem_singleton.mp ha]
    exact Or.inl rfl

/-- A single byte of a failed batch hides the acknowledged batch after it: memory has its member,
and a store opened then has nobody. -/
theorem acknowledged_batch_lost :
    let p := Path.ofText "rota.journal"
    let opened := ((start ⟨[]⟩).step p (.reopen 1000)).1
    let after := opened.run p
      [.record [.shiftAdded ⟨.ofNat 1, .ofNat 1, 1, 480, 720⟩] ⟨.failed 1, .complete⟩,
        .record [.memberRegistered (.ofNat 1) ⟨.ofNat 9, .staff⟩] .complete]
    after.2 = [some .noSpace, none] ∧ after.1.store.rota.memberCount = 1 ∧
      ∃ d' s', Store.ofJournal after.1.disk p = (d', .ok s') ∧ s'.rota.memberCount = 0 := by
  have hadmits : Disk.Admits ⟨[]⟩ (Path.ofText "rota.journal") none := by
    refine ⟨⟨_, rfl⟩, ?_, ?_, #["rota.journal"], ?_, ?_⟩ <;> decide
  have hleaves := (leaves_of_admits hadmits 1000).run
    [([.shiftAdded ⟨.ofNat 1, .ofNat 1, 1, 480, 720⟩], ⟨.failed 1, .complete⟩),
      ([.memberRegistered (.ofNat 1) ⟨.ofNat 9, .staff⟩], .complete)]
  have htorn : Frame.first (58 :: Frame.ofEdits
      [.memberRegistered (.ofNat 1) ⟨.ofNat 9, .staff⟩]) = .error .torn := rfl
  obtain ⟨d', s', hopen, hrota⟩ := hleaves.reopens
  refine ⟨rfl, rfl, d', s', hopen, ?_⟩
  have hnobody : s'.rota = Rota.empty.applyAll (Recovery.ofBytes (58 :: Frame.ofEdits
      [.memberRegistered (.ofNat 1) ⟨.ofNat 9, .staff⟩])).edits := hrota
  rw [hnobody, Recovery.ofBytes_of_error (List.cons_ne_nil _ _) htorn]
  rfl

end Session

end NurseryRota
