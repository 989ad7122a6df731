import NurseryRota.Proofs.FailedAppends
import NurseryRota.Proofs.LeftoverFile

/-!
# Recovery from a crash

A record that is interrupted leaves its journal with the old content and a part of the batch, or
with the history of the new state.  What is opened then is the old state with edits from the
front of the batch, and the new state as soon as the whole batch is in the file.  A temporary
file that was left over does not matter, then or later.
-/

namespace NurseryRota

inductive CrashPoint
  /-- In the append, with so many bytes of the batch in the file. -/
  | appending (written : Nat)
  | appended
  /-- In the compaction, with so many bytes in the temporary file. -/
  | preparing (written : Nat)
  | renamed

namespace CrashPoint

/-- What is on disk at a crash is what a record leaves there whose writes end at that point. -/
def fate : CrashPoint → RecordFate
  | appending written => ⟨.failed written, .complete⟩
  | appended => ⟨.complete, .refused⟩
  | preparing written => ⟨.complete, .failed written⟩
  | renamed => .complete

def Whole (batch : List Edit) : CrashPoint → Prop
  | appending written => (Frame.ofEdits batch).length ≤ written
  | appended => True
  | preparing _ => True
  | renamed => True

variable {batch : List Edit} {point : CrashPoint}

theorem reaching_of_whole (h : point.Whole batch) :
    Journal.reaching batch point.fate.append = Frame.ofEdits batch := by
  cases point with
  | appending written => exact List.take_of_length_le h
  | appended => rfl
  | preparing written => rfl
  | renamed => rfl

theorem exists_edits (batch : List Edit) (point : CrashPoint) :
    ∃ n, (Recovery.ofBytes (Journal.reaching batch point.fate.append)).edits = batch.take n := by
  have hwhole : (Recovery.ofBytes (Frame.ofEdits batch)).edits = batch.take batch.length := by
    rw [List.take_length]
    exact (Intact.ofEdits batch).edits_eq
  cases point with
  | appending written => exact Recovery.exists_edits_take batch written
  | appended => exact ⟨_, hwhole⟩
  | preparing written => exact ⟨_, hwhole⟩
  | renamed => exact ⟨_, hwhole⟩

end CrashPoint

namespace Recovery

def unread (bytes : Bytes) : Bytes := bytes.drop (ofBytes bytes).validLength

theorem unread_of_undamaged {bytes : Bytes} (h : (ofBytes bytes).damage = none) :
    unread bytes = [] := by
  unfold unread
  rw [(intact_of_undamaged h).validLength_eq, List.drop_length]

theorem edits_append (bytes more : Bytes) :
    (ofBytes (bytes ++ more)).edits =
      (ofBytes bytes).edits ++ (ofBytes (unread bytes ++ more)).edits := by
  have hfront := (intact_take bytes).ofBytes_append (unread bytes ++ more)
  rw [← List.append_assoc] at hfront
  unfold unread at hfront ⊢
  rw [List.take_append_drop] at hfront
  rw [hfront]

end Recovery

namespace Store

variable {d : Disk} {s : Store} {p : Path} {content : Bytes}

def crash (s : Store) (d : Disk) (batch : List Edit) (point : CrashPoint) : Disk :=
  (s.record d batch point.fate).disk

def rebuilt (s : Store) (d : Disk) (content : Bytes) (batch : List Edit) (fate : RecordFate) :
    Rota :=
  if s.rewrites d batch fate then s.rota.applyAll batch
  else s.rota.applyAll
    (Recovery.ofBytes (Recovery.unread content ++ Journal.reaching batch fate.append)).edits

theorem ofHistory_contentAfter (hstate : s.rota = Rota.ofHistory (Recovery.ofBytes content).edits)
    (batch : List Edit) (fate : RecordFate) :
    Rota.ofHistory (Recovery.ofBytes (s.contentAfter d content batch fate)).edits =
      s.rebuilt d content batch fate := by
  unfold contentAfter rebuilt
  split
  · have hkeyed : (s.rota.applyAll batch).shifts.Keyed := by
      rw [hstate]
      exact Rota.keyed_applyAll (Rota.keyed_ofHistory _) batch
    rw [(Intact.ofEdits (s.rota.applyAll batch).history).edits_eq]
    exact Rota.ofHistory_history hkeyed
  · rw [Recovery.edits_append, Rota.ofHistory_append, ← hstate]

theorem exists_rebuilt (hsound : (Recovery.ofBytes content).damage = none) (batch : List Edit)
    (point : CrashPoint) :
    ∃ n, s.rebuilt d content batch point.fate = s.rota.applyAll (batch.take n) := by
  unfold rebuilt
  split
  · refine ⟨batch.length, ?_⟩
    rw [List.take_length]
  · obtain ⟨n, hn⟩ := point.exists_edits batch
    refine ⟨n, ?_⟩
    rw [Recovery.unread_of_undamaged hsound, List.nil_append, hn]

theorem rebuilt_of_whole (hsound : (Recovery.ofBytes content).damage = none) {batch : List Edit}
    {point : CrashPoint} (hwhole : point.Whole batch) :
    s.rebuilt d content batch point.fate = s.rota.applyAll batch := by
  unfold rebuilt
  split
  · rfl
  · rw [Recovery.unread_of_undamaged hsound, List.nil_append, CrashPoint.reaching_of_whole hwhole,
      (Intact.ofEdits batch).edits_eq]

theorem Backed.crash (h : Backed d s p content)
    (hstate : s.rota = Rota.ofHistory (Recovery.ofBytes content).edits) (batch : List Edit)
    (point : CrashPoint) :
    ∃ d' s', Store.ofJournal (s.crash d batch point) p = (d', .ok s') ∧
      s'.rota = s.rebuilt d content batch point.fate := by
  have hfollows := h.record batch point.fate
  obtain ⟨d', s', hopen, hrota, -⟩ := hfollows.backed.ofJournal
  refine ⟨d', s', hopen, ?_⟩
  rw [hrota, ofHistory_contentAfter hstate]

/-- A record that is interrupted leaves a journal that can be opened.  It builds the old state and
what is read from the damaged tail of the old file, if there is one, and the bytes behind it; if
there is none, the old state with edits from the front of the batch, and with the whole batch once
its bytes are in the file.  What stands in the temporary file changes nothing in any later run. -/
theorem record_crash_safe (h : Backed d s p content)
    (hstate : s.rota = Rota.ofHistory (Recovery.ofBytes content).edits) (batch : List Edit)
    (point : CrashPoint) :
    let crashed := s.crash d batch point
    (∃ d' s', Store.ofJournal crashed p = (d', .ok s') ∧
      s'.rota = s.rebuilt d content batch point.fate ∧
      ((Recovery.ofBytes content).damage = none →
        (∃ n, s'.rota = s.rota.applyAll (batch.take n)) ∧
        (point.Whole batch → s'.rota = s.rota.applyAll batch))) ∧
    ∀ t made other, crashed.openFile (p.withExtension "journal.tmp") = (made, .ok t) →
      crashed.SameBut t other → ∀ threshold calls,
        let left := (Session.start crashed).run p (.reopen threshold :: calls)
        let right := (Session.start other).run p (.reopen threshold :: calls)
        right.2 = left.2 ∧ right.1.store = left.1.store ∧
          left.1.disk.SameBut t right.1.disk := by
  intro crashed
  obtain ⟨d', s', hopen, hrota⟩ := h.crash hstate batch point
  obtain ⟨j, -, hpath, hattached⟩ := (h.record batch point.fate).backed
  constructor
  · refine ⟨d', s', hopen, hrota, ?_⟩
    intro hsound
    constructor
    · obtain ⟨n, hn⟩ := exists_rebuilt (d := d) (s := s) hsound batch point
      exact ⟨n, hrota.trans hn⟩
    · intro hwhole
      exact hrota.trans (rebuilt_of_whole hsound hwhole)
  · intro t made other htemporary hsame threshold calls left right
    subst hpath
    have htwin : Journal.Twin t (Session.start crashed).disk (Session.start other).disk j _ :=
      Journal.Twin.ofOpenFile hattached htemporary hsame
    obtain ⟨hanswer, hopened⟩ := Session.twins_reopen htwin threshold
    obtain ⟨hanswers, htwins⟩ := hopened.run calls
    refine ⟨?_, htwins.store, htwins.same⟩
    exact congrArg₂ List.cons hanswer hanswers

/-- A crash between a batch and the compaction that is due after it, with a temporary file from
an earlier one: the batch is there, and no run tells whether that file was emptied. -/
theorem record_crash_safe_compaction_due :
    let p := Path.ofText "rota.journal"
    let t : Location := #["rota.journal.tmp"]
    let batch : List Edit :=
      [.memberRegistered (.ofNat 1) ⟨.ofNat 9, .staff⟩,
        .shiftAdded ⟨.ofNat 5, .ofNat 1, 2, 480, 720⟩]
    let s : Store := ⟨.empty, some ⟨p, #["rota.journal"], .atEnd, 0⟩, 1⟩
    let crashed := s.crash ⟨[(#["rota.journal"], .file []), (t, .file [7])]⟩ batch .appended
    (∃ d' s', Store.ofJournal crashed p = (d', .ok s') ∧ s'.rota = s.rota.applyAll batch) ∧
      ∀ threshold calls,
        ((Session.start (crashed.setContent t [])).run p (.reopen threshold :: calls)).2 =
          ((Session.start crashed).run p (.reopen threshold :: calls)).2 := by
  intro p t batch s crashed
  have hsound : (Recovery.ofBytes []).damage = none := Intact.nil.damage_eq
  have hattached : Journal.Attached
      ⟨[(#["rota.journal"], .file []), (#["rota.journal.tmp"], .file [7])]⟩
      ⟨Path.ofText "rota.journal", #["rota.journal"], .atEnd, 0⟩ [] := by
    refine ⟨⟨_, rfl⟩, ?_, ?_, ?_, rfl, Or.inl rfl⟩
    · decide
    · unfold Disk.HasWay
      rfl
    · rfl
  have hbacked : Backed ⟨[(#["rota.journal"], .file []), (#["rota.journal.tmp"], .file [7])]⟩ s
      p [] := ⟨_, rfl, rfl, hattached⟩
  have hstate : s.rota = Rota.ofHistory (Recovery.ofBytes []).edits := by
    rw [Intact.nil.edits_eq]
    rfl
  obtain ⟨⟨d', s', hopen, -, hrebuilt⟩, hleft⟩ :=
    record_crash_safe hbacked hstate batch .appended
  have hfile : crashed.node? t = some (.file [7]) := by
    unfold crashed s batch t p
    rfl
  have htemporary : ∃ made, crashed.openFile (p.withExtension "journal.tmp") = (made, .ok t) := by
    unfold crashed s batch t p
    exact ⟨_, rfl⟩
  obtain ⟨made, hmade⟩ := htemporary
  refine ⟨⟨d', s', hopen, (hrebuilt hsound).2 trivial⟩, ?_⟩
  intro threshold calls
  exact (hleft t made (crashed.setContent t []) hmade
    (Disk.SameBut.of_setContent (Disk.not_directory_of_file hfile) []) threshold calls).1

/-- One byte of a failed batch stands in the file, and memory still is what the file builds.  The
next batch reaches the file whole before a crash, and is not found again. -/
theorem recorded_batch_lost_in_crash :
    let p := Path.ofText "rota.journal"
    let s := ((Session.start ⟨[]⟩).run p [.reopen 1000,
      .record [.shiftAdded ⟨.ofNat 1, .ofNat 1, 1, 480, 720⟩] ⟨.failed 1, .complete⟩]).1
    let batch : List Edit := [.memberRegistered (.ofNat 1) ⟨.ofNat 9, .staff⟩]
    (∃ d' s', Store.ofJournal s.disk p = (d', .ok s') ∧ s'.rota = s.store.rota) ∧
      CrashPoint.appended.Whole batch ∧ (s.store.rota.applyAll batch).memberCount = 1 ∧
      ∃ d' s', Store.ofJournal (s.store.crash s.disk batch .appended) p = (d', .ok s') ∧
        s'.rota.memberCount = 0 := by
  have hadmits : Disk.Admits ⟨[]⟩ (Path.ofText "rota.journal") none := by
    refine ⟨⟨_, rfl⟩, ?_, ?_, #["rota.journal"], ?_, ?_⟩ <;> decide
  have hleaves := (Session.leaves_of_admits hadmits 1000).run
    [([.shiftAdded ⟨.ofNat 1, .ofNat 1, 1, 480, 720⟩], ⟨.failed 1, .complete⟩)]
  have hcrashed := hleaves.record [.memberRegistered (.ofNat 1) ⟨.ofNat 9, .staff⟩]
    CrashPoint.appended.fate
  have htorn : Frame.first [58] = .error .torn := rfl
  have htornBatch : Frame.first (58 :: Frame.ofEdits
      [.memberRegistered (.ofNat 1) ⟨.ofNat 9, .staff⟩]) = .error .torn := rfl
  obtain ⟨d₁, s₁, hopen₁, hrota₁⟩ := hleaves.reopens
  obtain ⟨d₂, s₂, hopen₂, hrota₂⟩ := hcrashed.reopens
  have hbefore : s₁.rota = Rota.empty.applyAll (Recovery.ofBytes [58]).edits := hrota₁
  have hafter : s₂.rota = Rota.empty.applyAll (Recovery.ofBytes (58 :: Frame.ofEdits
      [.memberRegistered (.ofNat 1) ⟨.ofNat 9, .staff⟩])).edits := hrota₂
  rw [Recovery.ofBytes_of_error (List.cons_ne_nil _ _) htorn] at hbefore
  rw [Recovery.ofBytes_of_error (List.cons_ne_nil _ _) htornBatch] at hafter
  refine ⟨⟨d₁, s₁, hopen₁, hbefore⟩, trivial, rfl, d₂, s₂, hopen₂, ?_⟩
  rw [hafter]
  rfl

end Store

end NurseryRota
