import NurseryRota.Proofs.JournalFile
import NurseryRota.Proofs.RotaHistory
import NurseryRota.Store

/-!
# Runs of a journaled store

A store is backed by a file when its journal is attached to it.  A record then leaves the store
backed by the old bytes and those that reached the file, or by the history of the new state when
it was compacted.  As long as appends succeed the file is intact and its edits build the state in
memory, whatever becomes of the compactions, so that opening it again gives the same state.
-/

namespace NurseryRota

namespace Store

variable {d : Disk} {s : Store} {p : Path} {content : Bytes}

/-- The store journals to the file with the given content at a path. -/
def Backed (d : Disk) (s : Store) (p : Path) (content : Bytes) : Prop :=
  ∃ j, s.journal = some j ∧ j.path = p ∧ j.Attached d content

/-- The store once the batch is journaled and applied, and its journal not compacted yet. -/
def journaled (s : Store) (d : Disk) (j : Journal) (batch : List Edit) (fate : RecordFate) :
    Store :=
  ⟨s.rota.applyAll batch, some (j.record d batch fate.append).journal, s.threshold⟩

theorem record_of_failed {j : Journal} (hjournal : s.journal = some j) {batch : List Edit}
    {fate : RecordFate} {e : DiskError}
    (hfailed : (j.record d batch fate.append).failure = some e) :
    s.record d batch fate = ⟨(j.record d batch fate.append).disk,
      { s with journal := some (j.record d batch fate.append).journal }, some e⟩ := by
  unfold Store.record
  rw [hjournal]
  dsimp only
  rw [hfailed]

theorem record_of_written {j : Journal} (hjournal : s.journal = some j) {batch : List Edit}
    {fate : RecordFate} (hwritten : (j.record d batch fate.append).failure = none) :
    s.record d batch fate =
      let compacted := (s.journaled d j batch fate).compact (j.record d batch fate.append).disk
        fate.compaction
      ⟨compacted.1, compacted.2, none⟩ := by
  unfold Store.record
  rw [hjournal]
  dsimp only
  rw [hwritten]
  rfl

theorem failure_record {j : Journal} (hjournal : s.journal = some j) (d : Disk) (batch : List Edit)
    (fate : RecordFate) : (s.record d batch fate).failure = Journal.answer batch fate.append := by
  rw [← j.failure_record d]
  cases hwritten : (j.record d batch fate.append).failure with
  | some e => rw [record_of_failed hjournal hwritten]
  | none => rw [record_of_written hjournal hwritten]

/-- The record replaces the journal by the history of the state that it leads to. -/
def rewrites (s : Store) (d : Disk) (batch : List Edit) (fate : RecordFate) : Bool :=
  match s.journal with
  | none => false
  | some j =>
    let written := j.record d batch fate.append
    written.failure.isNone && s.threshold < written.journal.records &&
      (written.journal.replace written.disk (s.rota.applyAll batch).history
        fate.compaction).failure.isNone

theorem rewrites_eq_true_iff {j : Journal} (hjournal : s.journal = some j) (batch : List Edit)
    (fate : RecordFate) : s.rewrites d batch fate = true ↔
      (j.record d batch fate.append).failure = none ∧
        s.threshold < (j.record d batch fate.append).journal.records ∧
        ((j.record d batch fate.append).journal.replace (j.record d batch fate.append).disk
          (s.rota.applyAll batch).history fate.compaction).failure = none := by
  unfold rewrites
  rw [hjournal]
  simp [and_assoc]

theorem failure_of_rewrites {batch : List Edit} {fate : RecordFate}
    (h : s.rewrites d batch fate = true) : (s.record d batch fate).failure = none := by
  cases hjournal : s.journal with
  | none =>
      unfold rewrites at h
      rw [hjournal] at h
      cases h
  | some j =>
      have hwritten := ((rewrites_eq_true_iff hjournal batch fate).mp h).1
      rw [record_of_written hjournal hwritten]

def contentAfter (s : Store) (d : Disk) (content : Bytes) (batch : List Edit)
    (fate : RecordFate) : Bytes :=
  if s.rewrites d batch fate then Frame.ofEdits (s.rota.applyAll batch).history
  else content ++ Journal.reaching batch fate.append

structure Follows (s : Store) (d : Disk) (p : Path) (content : Bytes) (batch : List Edit)
    (fate : RecordFate) (w : Recorded) : Prop where
  failure : w.failure = Journal.answer batch fate.append
  rota : w.store.rota = if w.failure = none then s.rota.applyAll batch else s.rota
  backed : Backed w.disk w.store p (s.contentAfter d content batch fate)

/-- A compaction leaves the history of the state in the file, or the file as it was. -/
theorem Backed.compact {j : Journal} (hjournal : s.journal = some j) (hpath : j.path = p)
    (hattached : j.Attached d content) (fate : WriteFate) :
    (s.compact d fate).2.rota = s.rota ∧
      Backed (s.compact d fate).1 (s.compact d fate).2 p
        (if s.threshold < j.records ∧ (j.replace d s.rota.history fate).failure = none then
          Frame.ofEdits s.rota.history
        else content) := by
  unfold Store.compact
  rw [hjournal]
  dsimp only
  by_cases hgrown : s.threshold < j.records
  · rw [if_pos hgrown]
    by_cases hdone : (j.replace d s.rota.history fate).failure = none
    · have hreplaced := hattached.replace hdone
      rw [if_pos ⟨hgrown, hdone⟩]
      exact ⟨rfl, _, rfl, (j.path_replace d _ fate).trans hpath, hreplaced⟩
    · obtain ⟨hsame, hkept⟩ := hattached.replace_failed hdone
      rw [if_neg fun h => hdone h.2, hsame]
      exact ⟨rfl, j, rfl, hpath, hkept⟩
  · rw [if_neg hgrown, if_neg fun h => hgrown h.1]
    exact ⟨rfl, j, hjournal, hpath, hattached⟩

theorem Backed.record (h : Backed d s p content) (batch : List Edit) (fate : RecordFate) :
    Follows s d p content batch fate (s.record d batch fate) := by
  obtain ⟨j, hjournal, hpath, hattached⟩ := h
  have hrecord := hattached.record batch fate.append
  have hrecordPath := (j.path_record d batch fate.append).trans hpath
  have hfailure := failure_record hjournal d batch fate
  have hrewrites := rewrites_eq_true_iff (d := d) hjournal batch fate
  cases hwritten : (j.record d batch fate.append).failure with
  | some e =>
      have hnot : ¬ s.rewrites d batch fate = true := by
        rw [hrewrites, hwritten]
        simp
      rw [record_of_failed hjournal hwritten] at hfailure ⊢
      refine ⟨hfailure, ?_, ?_⟩
      · rw [if_neg (by simp)]
      · unfold contentAfter
        rw [if_neg hnot]
        exact ⟨_, rfl, hrecordPath, hrecord⟩
  | none =>
      have hjournal' : (s.journaled d j batch fate).journal =
          some (j.record d batch fate.append).journal := rfl
      obtain ⟨hrota, hbacked⟩ := Backed.compact hjournal' hrecordPath hrecord fate.compaction
      rw [record_of_written hjournal hwritten] at hfailure ⊢
      refine ⟨hfailure, ?_, ?_⟩
      · rw [if_pos rfl]
        exact hrota
      · unfold contentAfter
        simp only [hrewrites, hwritten, true_and]
        exact hbacked

theorem Backed.ofJournal (h : Backed d s p content) :
    ∃ d' s', Store.ofJournal d p = (d', .ok s') ∧
      s'.rota = Rota.ofHistory (Recovery.ofBytes content).edits ∧
      Backed d' s' p (content.take (Recovery.ofBytes content).validLength) := by
  obtain ⟨j, -, rfl, hattached⟩ := h
  unfold Store.ofJournal
  rw [hattached.openAt]
  exact ⟨_, _, rfl, rfl, _, rfl, rfl, hattached.cut _⟩

theorem ofJournal_of_admits {held : Option Bytes} (h : d.Admits p held) :
    ∃ d' s' content, Store.ofJournal d p = (d', .ok s') ∧
      s'.rota = Rota.ofHistory (Recovery.ofBytes (held.getD [])).edits ∧
      Backed d' s' p content ∧ Intact content (Recovery.ofBytes (held.getD [])).edits := by
  obtain ⟨d', j, content, hopen, hpath, hattached, hintact⟩ := Journal.openAt_of_admits h
  unfold Store.ofJournal
  rw [hopen]
  exact ⟨d', _, content, rfl, rfl, ⟨j, rfl, hpath, hattached⟩, hintact⟩

/-! ## Calls -/

inductive Call
  | reopen (threshold : Nat)
  | record (batch : List Edit) (fate : RecordFate)

namespace Call

def batch : Call → List Edit
  | reopen _ => []
  | record batch _ => batch

/-- The append of a record succeeds; its compaction need not. -/
def Appends : Call → Prop
  | reopen _ => True
  | record _ fate => fate.append = .complete

end Call

end Store

structure Session where
  disk : Disk
  store : Store

namespace Session

def step (p : Path) (s : Session) : Store.Call → Session × Option DiskError
  | .reopen threshold =>
    match Store.ofJournal s.disk p with
    | (d, .ok store) => (⟨d, store.withThreshold threshold⟩, none)
    | (d, .error e) => (⟨d, s.store⟩, some e)
  | .record batch fate =>
    let written := s.store.record s.disk batch fate
    (⟨written.disk, written.store⟩, written.failure)

theorem step_record (p : Path) (s : Session) (batch : List Edit) (fate : RecordFate) :
    s.step p (.record batch fate) = (⟨(s.store.record s.disk batch fate).disk,
      (s.store.record s.disk batch fate).store⟩, (s.store.record s.disk batch fate).failure) := rfl

def run (p : Path) (s : Session) : List Store.Call → Session × List (Option DiskError)
  | [] => (s, [])
  | c :: calls =>
    let first := s.step p c
    let rest := first.1.run p calls
    (rest.1, first.2 :: rest.2)

def start (d : Disk) : Session := ⟨d, .empty⟩

/-- The store holds what the edits build, and so does its file, which is intact. -/
structure InStep (p : Path) (s : Session) (edits : List Edit) : Prop where
  rota : s.store.rota = Rota.ofHistory edits
  file : ∃ content es, Store.Backed s.disk s.store p content ∧ Intact content es ∧
    Rota.ofHistory es = s.store.rota

variable {p : Path} {s : Session} {edits : List Edit}

theorem InStep.reopens (h : InStep p s edits) :
    ∃ d' s' content es, Store.ofJournal s.disk p = (d', .ok s') ∧ s'.rota = s.store.rota ∧
      Store.Backed d' s' p content ∧ Intact content es ∧ Rota.ofHistory es = s.store.rota := by
  obtain ⟨content, es, hbacked, hintact, hes⟩ := h.file
  obtain ⟨d', s', hopen, hrota, hbacked'⟩ := hbacked.ofJournal
  rw [hintact.validLength_eq, List.take_length] at hbacked'
  rw [hintact.edits_eq, hes] at hrota
  exact ⟨d', s', content, es, hopen, hrota, hbacked', hintact, hes⟩

theorem InStep.step (h : InStep p s edits) {c : Store.Call} (hc : c.Appends) :
    (s.step p c).2 = none ∧ InStep p (s.step p c).1 (edits ++ c.batch) := by
  cases c with
  | reopen threshold =>
      obtain ⟨d', s', content, es, hopen, hrota, hbacked, hintact, hes⟩ := h.reopens
      unfold Session.step Store.Call.batch
      rw [hopen, List.append_nil]
      refine ⟨rfl, hrota.trans h.rota, content, es, hbacked, hintact, ?_⟩
      rw [hes]
      exact hrota.symm
  | record batch fate =>
      have happend : fate.append = .complete := hc
      obtain ⟨content, es, hbacked, hintact, hes⟩ := h.file
      have hfollows := hbacked.record batch fate
      have hnone : (s.store.record s.disk batch fate).failure = none := by
        rw [hfollows.failure, happend, Journal.answer_of_complete]
      have hrota : (s.store.record s.disk batch fate).store.rota = s.store.rota.applyAll batch := by
        rw [hfollows.rota, if_pos hnone]
      have hkeyed : (s.store.rota.applyAll batch).shifts.Keyed := by
        rw [h.rota]
        exact Rota.keyed_applyAll (Rota.keyed_ofHistory edits) batch
      refine ⟨hnone, ?_, ?_⟩
      · change (s.store.record s.disk batch fate).store.rota = _
        rw [hrota, h.rota]
        exact (Rota.ofHistory_append edits batch).symm
      · refine ⟨_, if s.store.rewrites s.disk batch fate then (s.store.rota.applyAll batch).history
          else es ++ batch, hfollows.backed, ?_, ?_⟩
        · unfold Store.contentAfter
          split
          · exact Intact.ofEdits _
          · rw [happend]
            exact hintact.append (Intact.ofEdits batch)
        · change _ = (s.store.record s.disk batch fate).store.rota
          rw [hrota]
          split
          · exact Rota.ofHistory_history hkeyed
          · rw [Rota.ofHistory_append, hes]

theorem InStep.run (h : InStep p s edits) {calls : List Store.Call}
    (hcalls : ∀ c ∈ calls, c.Appends) :
    (∀ answer ∈ (s.run p calls).2, answer = none) ∧
      InStep p (s.run p calls).1 (edits ++ calls.flatMap Store.Call.batch) := by
  induction calls generalizing s edits with
  | nil =>
      unfold Session.run
      rw [List.flatMap_nil, List.append_nil]
      exact ⟨by simp, h⟩
  | cons c calls ih =>
      obtain ⟨hanswer, hstep⟩ := h.step (hcalls c (by simp))
      obtain ⟨hanswers, hrun⟩ := ih hstep fun c' hc' => hcalls c' (List.mem_cons_of_mem c hc')
      unfold Session.run
      dsimp only
      constructor
      · intro answer hmem
        rcases List.mem_cons.mp hmem with rfl | hmem
        · exact hanswer
        · exact hanswers answer hmem
      · rw [List.flatMap_cons, ← List.append_assoc]
        exact hrun

theorem inStep_of_admits {d : Disk} {held : Option Bytes} (h : d.Admits p held)
    (threshold : Nat) :
    ((start d).step p (.reopen threshold)).2 = none ∧
      InStep p ((start d).step p (.reopen threshold)).1
        (Recovery.ofBytes (held.getD [])).edits := by
  obtain ⟨d', s', content, hopen, hrota, hbacked, hintact⟩ := Store.ofJournal_of_admits h
  unfold step start
  dsimp only
  rw [hopen]
  exact ⟨rfl, hrota, content, _, hbacked, hintact, hrota.symm⟩

/-- A run that opens a journal and whose appends succeed loses nothing: no call fails, memory
holds what was in the file and every batch since, and so does a store opened after it.  Neither
the thresholds nor the fates of the compactions matter. -/
theorem run_durable {d : Disk} {held : Option Bytes} (h : d.Admits p held) (threshold : Nat)
    {calls : List Store.Call} (hcalls : ∀ c ∈ calls, c.Appends) :
    let after := (start d).run p (.reopen threshold :: calls)
    (∀ answer ∈ after.2, answer = none) ∧
      after.1.store.rota = Rota.ofHistory
        ((Recovery.ofBytes (held.getD [])).edits ++ calls.flatMap Store.Call.batch) ∧
      ∃ d' s', Store.ofJournal after.1.disk p = (d', .ok s') ∧
        s'.rota = after.1.store.rota := by
  intro after
  obtain ⟨hopened, hstart⟩ := inStep_of_admits h threshold
  obtain ⟨hanswers, hrun⟩ := hstart.run hcalls
  obtain ⟨d', s', _, _, hopen, hrota, -, -, -⟩ := hrun.reopens
  refine ⟨?_, hrun.rota, d', s', hopen, hrota⟩
  intro answer hmem
  rcases List.mem_cons.mp hmem with rfl | hmem
  · exact hopened
  · exact hanswers answer hmem

/-- A journal with a torn frame is opened, and two batches are recorded with a compaction due
after each; the first compaction is refused, and the store is opened once more in between. -/
theorem run_durable_refused_compaction :
    let p := Path.ofText "rota.journal"
    let calls : List Store.Call :=
      [.record [.memberRegistered (.ofNat 1) ⟨.ofNat 9, .staff⟩,
          .memberRemoved (.ofNat 1)] ⟨.complete, .refused⟩,
        .reopen 1,
        .record [.shiftAdded ⟨.ofNat 5, .ofNat 1, 2, 480, 720⟩] .complete]
    let after := (start ⟨[(#["rota.journal"], .file [40, 0, 0, 0, 7])]⟩).run p
      (.reopen 0 :: calls)
    (∀ answer ∈ after.2, answer = none) ∧
      after.1.store.rota = Rota.ofHistory ((Recovery.ofBytes [40, 0, 0, 0, 7]).edits ++
        calls.flatMap Store.Call.batch) ∧
      ∃ d' s', Store.ofJournal after.1.disk p = (d', .ok s') ∧
        s'.rota = after.1.store.rota := by
  have hadmits : Disk.Admits ⟨[(#["rota.journal"], .file [40, 0, 0, 0, 7])]⟩
      (Path.ofText "rota.journal") (some [40, 0, 0, 0, 7]) := by
    refine ⟨⟨_, rfl⟩, ?_, ?_, #["rota.journal"], ?_, ?_⟩ <;> decide
  apply run_durable hadmits 0
  intro c hc
  simp only [List.mem_cons, List.not_mem_nil, or_false] at hc
  rcases hc with rfl | rfl | rfl
  · rfl
  · trivial
  · rfl

end Session

end NurseryRota
