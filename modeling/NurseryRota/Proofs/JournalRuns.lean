import NurseryRota.Proofs.FailedAppends

/-!
# Runs of a journal

A journal that is opened, written to, replaced and opened again is a list of edits: a record adds
to the list, a replacement puts another in its place, and a replacement that fails leaves it.  The
file holds the frames of the list and nothing else at every moment, whatever it held before it was
opened and whichever file the handle writes to.  A record that failed with bytes in the file is no
part of such a run.
-/

namespace NurseryRota.Journal

variable {d : Disk} {j : Journal}

theorem records_write (j : Journal) (d : Disk) (bytes : Bytes) :
    (j.write d bytes).2.records = j.records := by
  unfold write
  cases j.cursor <;> rfl

theorem records_record (j : Journal) (d : Disk) (batch : List Edit) (fate : WriteFate) :
    (j.record d batch fate).journal.records =
      if (j.record d batch fate).failure = none then j.records + batch.length else j.records := by
  unfold record
  by_cases hempty : batch = []
  · simp [hempty]
  · simp only [hempty, if_false]
    cases fate.failure? <;> simp [records_write]

theorem records_replace {edits : List Edit} {fate : WriteFate}
    (hdone : (j.replace d edits fate).failure = none) :
    (j.replace d edits fate).journal.records = edits.length := by
  obtain ⟨d', t, hprepare⟩ := (failure_replace_eq_none_iff j d edits fate).mp hdone
  unfold replace
  dsimp only
  rw [hprepare]

theorem records_openAt {d' : Disk} {p : Path} {recovery : Recovery}
    (h : openAt d p = (d', .ok (j, recovery))) : j.records = recovery.edits.length := by
  unfold openAt at h
  split at h
  · cases h
  · split at h
    · cases h
    · split at h
      · cases h
      · cases h
        rfl

theorem failure_replace_eq_none (j : Journal) (d : Disk) (edits : List Edit) (fate : WriteFate) :
    (j.replace d edits fate).failure = none ↔
      fate = .complete ∧ ∃ made t, d.openFile j.temporary = (made, .ok t) := by
  rw [failure_replace_eq_none_iff]
  constructor
  · rintro ⟨d', t, hprepare⟩
    obtain ⟨made, hopen, -⟩ := prepare_eq_ok hprepare
    refine ⟨?_, made, t, hopen⟩
    unfold prepare at hprepare
    cases fate with
    | complete => rfl
    | failed written =>
        rw [hopen] at hprepare
        cases hprepare
    | refused => cases hprepare
  · rintro ⟨rfl, made, t, hopen⟩
    unfold prepare
    rw [hopen]
    exact ⟨_, _, rfl⟩

/-- An open journal, and the disk that it writes to. -/
structure Handle where
  disk : Disk
  journal : Journal

inductive Call
  | reopen
  | record (batch : List Edit) (fate : WriteFate)
  | replace (edits : List Edit) (fate : WriteFate)

namespace Call

/-- What a list becomes by the call if the call succeeds. -/
def becomes (edits : List Edit) : Call → List Edit
  | reopen => edits
  | record batch _ => edits ++ batch
  | replace new _ => new

/-- A record that fails leaves nothing in the file. -/
def Clean : Call → Prop
  | reopen => True
  | record batch fate => (⟨batch, fate⟩ : Append).Clean
  | replace _ _ => True

/-- The list that calls lead to, by what they were answered. -/
def listAfter (edits : List Edit) (outcomes : List (Call × Option DiskError)) : List Edit :=
  outcomes.foldl (fun es o => if o.2 = none then o.1.becomes es else es) edits

end Call

namespace Handle

def step (h : Handle) : Call → Handle × Option DiskError
  | .reopen =>
    match openAt h.disk h.journal.path with
    | (d, .ok (j, _)) => (⟨d, j⟩, none)
    | (d, .error e) => (⟨d, h.journal⟩, some e)
  | .record batch fate =>
    let written := h.journal.record h.disk batch fate
    (⟨written.disk, written.journal⟩, written.failure)
  | .replace edits fate =>
    let written := h.journal.replace h.disk edits fate
    (⟨written.disk, written.journal⟩, written.failure)

def run (h : Handle) : List Call → Handle × List (Option DiskError)
  | [] => (h, [])
  | c :: calls =>
    let first := h.step c
    let rest := first.1.run calls
    (rest.1, first.2 :: rest.2)

/-- The journal at the path reads as the list and counts it, and so it does when it is opened
again. -/
structure Holds (p : Path) (h : Handle) (edits : List Edit) : Prop where
  read : ∃ content, h.disk.fileBytes p = .ok content ∧
    Journal.read h.disk p = .ok ⟨edits, content.length, none⟩
  records : h.journal.records = edits.length
  reopens : ∀ recovery, Journal.read h.disk p = .ok recovery →
    ∃ d j, openAt h.disk p = (d, .ok (j, recovery)) ∧ j.records = edits.length

/-- The handle writes at the end of the frames of the list. -/
structure Follows (p : Path) (h : Handle) (edits : List Edit) : Prop where
  path : h.journal.path = p
  file : ∃ content, h.journal.Attached h.disk content ∧ Intact content edits
  records : h.journal.records = edits.length

variable {p : Path} {h : Handle} {edits : List Edit}

theorem Follows.holds (hfollows : Follows p h edits) : Holds p h edits := by
  obtain ⟨content, hattached, hintact⟩ := hfollows.file
  have hpath := hfollows.path
  subst hpath
  have hbytes : h.disk.fileBytes h.journal.path = .ok content :=
    Disk.fileBytes_of_file hattached.located hattached.ending hattached.file
  have hread : Journal.read h.disk h.journal.path = .ok ⟨edits, content.length, none⟩ := by
    rw [read_of_file hbytes, hintact]
  have hopen := hattached.openAt
  rw [hintact] at hopen
  refine ⟨⟨content, hbytes, hread⟩, hfollows.records, ?_⟩
  intro recovery hrecovery
  obtain rfl : ⟨edits, content.length, none⟩ = recovery :=
    Except.ok.inj (hread.symm.trans hrecovery)
  exact ⟨_, _, hopen, rfl⟩

theorem Follows.reopen (hfollows : Follows p h edits) :
    (h.step .reopen).2 = none ∧ Follows p (h.step .reopen).1 edits := by
  obtain ⟨content, hattached, hintact⟩ := hfollows.file
  have hcut := hattached.cut edits.length
  have hopen := hattached.openAt
  rw [hintact.validLength_eq, List.take_length] at hcut
  rw [hintact.edits_eq] at hopen
  unfold step
  rw [hopen]
  exact ⟨rfl, hfollows.path, ⟨content, hcut, hintact⟩, rfl⟩

theorem Follows.record (hfollows : Follows p h edits) {batch : List Edit} {fate : WriteFate}
    (hclean : (⟨batch, fate⟩ : Append).Clean) :
    Follows p (h.step (.record batch fate)).1
      (if (h.step (.record batch fate)).2 = none then edits ++ batch else edits) := by
  obtain ⟨content, hattached, hintact⟩ := hfollows.file
  have hrecord := hattached.record batch fate
  have hrecords := records_record h.journal h.disk batch fate
  have hpath := (path_record h.journal h.disk batch fate).trans hfollows.path
  have hanswer := failure_record h.journal h.disk batch fate
  rw [hfollows.records] at hrecords
  unfold step
  dsimp only
  split
  · next hdone =>
      have hbytes : reaching batch fate = Frame.ofEdits batch :=
        Append.bytes_of_acknowledged (a := ⟨batch, fate⟩)
          (Option.isNone_iff_eq_none.mpr (hanswer.symm.trans hdone))
      rw [hbytes] at hrecord
      rw [if_pos hdone, ← List.length_append] at hrecords
      exact ⟨hpath, ⟨_, hrecord, hintact.append (Intact.ofEdits batch)⟩, hrecords⟩
  · next hfailed =>
      have hbytes : reaching batch fate = [] := by
        rcases hclean with hack | hnothing
        · exact absurd (hanswer.trans (Option.isNone_iff_eq_none.mp hack)) hfailed
        · exact hnothing
      rw [hbytes, List.append_nil] at hrecord
      rw [if_neg hfailed] at hrecords
      exact ⟨hpath, ⟨content, hrecord, hintact⟩, hrecords⟩

theorem Follows.replace (hfollows : Follows p h edits) (new : List Edit) (fate : WriteFate) :
    Follows p (h.step (.replace new fate)).1
      (if (h.step (.replace new fate)).2 = none then new else edits) := by
  obtain ⟨content, hattached, hintact⟩ := hfollows.file
  have hpath := (path_replace h.journal h.disk new fate).trans hfollows.path
  unfold step
  dsimp only
  split
  · next hdone =>
      exact ⟨hpath, ⟨_, hattached.replace hdone, Intact.ofEdits new⟩, records_replace hdone⟩
  · next hfailed =>
      obtain ⟨hsame, hkept⟩ := hattached.replace_failed hfailed
      rw [hsame]
      exact ⟨hfollows.path, ⟨content, hkept, hintact⟩, hfollows.records⟩

theorem Follows.step (hfollows : Follows p h edits) {c : Call} (hclean : c.Clean) :
    Follows p (h.step c).1 (if (h.step c).2 = none then c.becomes edits else edits) := by
  cases c with
  | reopen =>
      obtain ⟨hopened, hreopen⟩ := hfollows.reopen
      rw [if_pos hopened]
      exact hreopen
  | record batch fate => exact hfollows.record hclean
  | replace new fate => exact hfollows.replace new fate

theorem Follows.run (hfollows : Follows p h edits) {calls : List Call}
    (hclean : ∀ c ∈ calls, c.Clean) :
    Follows p (h.run calls).1 (Call.listAfter edits (calls.zip (h.run calls).2)) := by
  induction calls generalizing h edits with
  | nil => exact hfollows
  | cons c calls ih =>
      have hfirst := hfollows.step (hclean c (by simp))
      exact ih hfirst fun c' hc' => hclean c' (by simp [hc'])

theorem follows_of_openAt {d' : Disk} {content : Bytes} {recovery : Recovery}
    (hopen : openAt d p = (d', .ok (j, recovery))) (hpath : j.path = p)
    (hattached : j.Attached d' content) (hintact : Intact content recovery.edits) :
    Follows p ⟨d', j⟩ recovery.edits :=
  ⟨hpath, ⟨content, hattached, hintact⟩, records_openAt hopen⟩

/-- A journal that is opened on any file, or on none, goes through every run as a list of edits
that starts with those of the file's intact frames.  Opening it again and recording what reaches
the file never fail, and a replacement fails only in preparing the temporary file. -/
theorem run_refines_list {held : Option Bytes} (hadmits : d.Admits p held) :
    ∃ d' j, openAt d p = (d', .ok (j, Recovery.ofBytes (held.getD []))) ∧
      ∀ calls : List Call, (∀ c ∈ calls, c.Clean) →
        let after := (Handle.mk d' j).run calls
        Holds p after.1
          (Call.listAfter (Recovery.ofBytes (held.getD [])).edits (calls.zip after.2)) ∧
        (after.1.step .reopen).2 = none ∧
        (∀ batch, (after.1.step (.record batch .complete)).2 = none) ∧
        ∀ new fate, (after.1.step (.replace new fate)).2 = none ↔
          fate = .complete ∧
            ∃ made t, after.1.disk.openFile after.1.journal.temporary = (made, .ok t) := by
  obtain ⟨d', j, content, hopen, hpath, hattached, hintact⟩ := openAt_of_admits hadmits
  refine ⟨d', j, hopen, ?_⟩
  intro calls hclean after
  have hfollows := (follows_of_openAt hopen hpath hattached hintact).run hclean
  refine ⟨hfollows.holds, hfollows.reopen.1, ?_, ?_⟩
  · intro batch
    exact (failure_record _ _ batch .complete).trans (answer_of_complete batch)
  · intro new fate
    exact failure_replace_eq_none _ _ new fate

/-- What is recorded behind a damaged tail, after a replacement that failed and after one that
succeeded, is all found again. -/
theorem run_refines_list_damaged_tail :
    let damaged : Disk := ⟨[(#["rota.journal"], .file [40, 0, 0, 0, 7])]⟩
    let p := Path.ofText "rota.journal"
    let calls : List Call :=
      [.record [.memberRegistered (.ofNat 1) ⟨.ofNat 9, .staff⟩] .complete,
        .replace [] (.failed 0),
        .record [.memberRemoved (.ofNat 1)] .complete,
        .replace [.memberRegistered (.ofNat 2) ⟨.ofNat 9, .staff⟩] .complete,
        .record [.memberRemoved (.ofNat 2)] .complete,
        .reopen]
    ∃ d' j, openAt damaged p = (d', .ok (j, Recovery.ofBytes [40, 0, 0, 0, 7])) ∧
      ((Handle.mk d' j).run calls).2 = [none, some .noSpace, none, none, none, none] ∧
      Holds p ((Handle.mk d' j).run calls).1
        [.memberRegistered (.ofNat 2) ⟨.ofNat 9, .staff⟩, .memberRemoved (.ofNat 2)] := by
  intro damaged p calls
  have hadmits : damaged.Admits p (some [40, 0, 0, 0, 7]) := by
    refine ⟨⟨_, rfl⟩, ?_, ?_, #["rota.journal"], ?_, ?_⟩ <;> decide
  have hanswers : (match openAt damaged p with
      | (d', .ok (j, _)) => ((Handle.mk d' j).run calls).2
      | _ => []) = [none, some .noSpace, none, none, none, none] := by
    decide +kernel
  have hclean : ∀ c ∈ calls, c.Clean := by
    simp [calls, Call.Clean, Append.Clean, Append.acknowledged, answer_of_complete]
  obtain ⟨d', j, hopen, hruns⟩ := run_refines_list hadmits
  rw [hopen] at hanswers
  have hholds := (hruns calls hclean).1
  dsimp only at hanswers hholds
  rw [hanswers] at hholds
  exact ⟨d', j, hopen, hanswers, hholds⟩

end Handle

end NurseryRota.Journal
