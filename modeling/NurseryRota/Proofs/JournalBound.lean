import NurseryRota.Proofs.JournalRuns

/-!
# The journal of a store stays short

A store counts the edits in the file of its journal: those recovered when it was opened, those of
each batch, and those of the history that replaces them.  A record that would leave more than the
threshold compacts the file to one edit for each entry of the rota.  Where a compaction fails,
neither the file nor the count falls behind the other, so the next record tries again, even one
of nothing.
-/

namespace NurseryRota

namespace Session

/-- The journal's handle follows the edits that are in the file, which build what the store
holds. -/
structure Counts (p : Path) (limit : Nat) (s : Session) (edits : List Edit) : Prop where
  journal : ∃ j, s.store.journal = some j ∧ Journal.Handle.Follows p ⟨s.disk, j⟩ edits
  rota : s.store.rota = Rota.ofHistory edits
  threshold : s.store.threshold = limit

/-- A reader finds the edits in the file, undamaged; the store counts them, and they build what it
holds. -/
structure Files (p : Path) (s : Session) (edits : List Edit) : Prop where
  read : ∃ length, Journal.read s.disk p = .ok ⟨edits, length, none⟩
  counted : ∃ j, s.store.journal = some j ∧ j.records = edits.length
  builds : Rota.ofHistory edits = s.store.rota

/-- The file holds the edits, and no more than the limit or one for each entry of the rota. -/
structure Within (p : Path) (limit : Nat) (s : Session) (edits : List Edit) : Prop
    extends Files p s edits where
  bound : edits.length ≤ max limit (s.store.rota.memberCount + s.store.rota.shiftCount)

variable {p : Path} {limit : Nat} {s : Session} {edits batch : List Edit} {fate : RecordFate}

theorem Counts.files (h : Counts p limit s edits) : Files p s edits := by
  obtain ⟨j, hjournal, hfollows⟩ := h.journal
  have hholds := hfollows.holds
  obtain ⟨content, -, hread⟩ := hholds.read
  exact ⟨⟨content.length, hread⟩, ⟨j, hjournal, hholds.records⟩, h.rota.symm⟩

theorem Counts.keyed (h : Counts p limit s edits) : s.store.rota.shifts.Keyed := by
  rw [h.rota]
  exact Rota.keyed_ofHistory edits

theorem Counts.withThreshold (h : Counts p limit s edits) (threshold : Nat) :
    Counts p (max threshold 1) ⟨s.disk, s.store.withThreshold threshold⟩ edits :=
  ⟨h.journal, h.rota, rfl⟩

theorem counts_of_ofJournal {d d' : Disk} {text : String} {store : Store}
    (hopen : Store.ofJournal d (.ofText text) = (d', .ok store)) :
    ∃ edits, Counts (.ofText text) store.threshold ⟨d', store⟩ edits := by
  unfold Store.ofJournal at hopen
  split at hopen
  · cases hopen
  · next made j recovery hopened =>
      cases hopen
      obtain ⟨held, hadmits⟩ := Journal.exists_admits_of_openAt hopened
      obtain ⟨made', j', content, hopened', hpath, hattached, hintact⟩ :=
        Journal.openAt_of_admits hadmits
      rw [hopened] at hopened'
      cases hopened'
      exact ⟨_, ⟨j, rfl, Journal.Handle.follows_of_openAt hopened hpath hattached hintact⟩, rfl,
        rfl⟩

end Session

/-! ## One record -/

namespace Store

variable {s : Store} {d : Disk} {p : Path} {j : Journal} {edits : List Edit}

/-- A compaction that is due and succeeds leaves the history in the file, any other what was
there. -/
theorem follows_compact (hjournal : s.journal = some j)
    (hfollows : Journal.Handle.Follows p ⟨d, j⟩ edits) (fate : WriteFate) :
    ∃ j', (s.compact d fate).2 = { s with journal := some j' } ∧
      Journal.Handle.Follows p ⟨(s.compact d fate).1, j'⟩
        (if s.threshold < j.records ∧ (j.replace d s.rota.history fate).failure = none then
          s.rota.history
        else edits) := by
  unfold compact
  rw [hjournal]
  dsimp only
  by_cases hdue : s.threshold < j.records
  · have hreplace := hfollows.replace s.rota.history fate
    simp only [hdue, true_and, if_true]
    exact ⟨_, rfl, hreplace⟩
  · simp only [hdue, false_and, if_false]
    exact ⟨j, by rw [← hjournal], hfollows⟩

end Store

namespace Session

variable {p : Path} {limit : Nat} {s : Session} {edits batch : List Edit} {fate : RecordFate}

theorem Counts.record (h : Counts p limit s edits)
    (hclean : (⟨batch, fate.append⟩ : Append).Clean) :
    Counts p limit (s.step p (.record batch fate)).1
      (if s.store.rewrites s.disk batch fate then (s.store.rota.applyAll batch).history
      else if (s.step p (.record batch fate)).2 = none then edits ++ batch else edits) := by
  obtain ⟨j, hjournal, hfollows⟩ := h.journal
  have hrecord : Journal.Handle.Follows p
      ⟨(j.record s.disk batch fate.append).disk, (j.record s.disk batch fate.append).journal⟩
      (if (j.record s.disk batch fate.append).failure = none then edits ++ batch else edits) :=
    hfollows.record hclean
  have hrewrites := Store.rewrites_eq_true_iff (d := s.disk) hjournal batch fate
  cases hwritten : (j.record s.disk batch fate.append).failure with
  | some e =>
      have hnot : ¬ s.store.rewrites s.disk batch fate = true := by
        rw [hrewrites, hwritten]
        simp
      rw [hwritten, if_neg (by simp)] at hrecord
      rw [step_record, Store.record_of_failed hjournal hwritten, if_neg hnot, if_neg (by simp)]
      exact ⟨⟨_, rfl, hrecord⟩, h.rota, h.threshold⟩
  | none =>
      have hbuilt : s.store.rota.applyAll batch = Rota.ofHistory (edits ++ batch) := by
        rw [h.rota, Rota.ofHistory_append]
      rw [hwritten, if_pos rfl] at hrecord
      obtain ⟨j', hstore, hcompact⟩ := Store.follows_compact
        (s := s.store.journaled s.disk j batch fate) rfl hrecord fate.compaction
      rw [step_record, Store.record_of_written hjournal hwritten, if_pos rfl]
      simp only [hrewrites, hwritten, true_and]
      rw [hstore]
      refine ⟨⟨j', rfl, hcompact⟩, ?_, h.threshold⟩
      dsimp only [Store.journaled]
      split
      · rw [hbuilt]
        exact (Rota.ofHistory_history (Rota.keyed_ofHistory _)).symm
      · exact hbuilt

theorem Counts.run (h : Counts p limit s edits) {records : List (List Edit × RecordFate)}
    (hclean : ∀ r ∈ records, (⟨r.1, r.2.append⟩ : Append).Clean) :
    ∃ held, Counts p limit (s.run p (records.map fun r => .record r.1 r.2)).1 held := by
  induction records generalizing s edits with
  | nil => exact ⟨edits, h⟩
  | cons r records ih =>
      exact ih (h.record (hclean r (by simp))) fun q hq => hclean q (List.mem_cons_of_mem r hq)

/-! ## A record that succeeds -/

theorem answer_step {j : Journal} (hjournal : s.store.journal = some j) (batch : List Edit)
    (fate : RecordFate) :
    (s.step p (.record batch fate)).2 = Journal.answer batch fate.append :=
  Store.failure_record hjournal s.disk batch fate

/-- A record that succeeds compacts the file if it would hold more than the limit, unless the
temporary file cannot be made or written; then the file holds everything still. -/
structure KeepsShort (p : Path) (limit : Nat) (s : Session) (held batch : List Edit)
    (fate : RecordFate) : Prop where
  tried : ∀ j, s.store.journal = some j → (s.store.rewrites s.disk batch fate = true ↔
    limit < held.length + batch.length ∧ fate.compaction = .complete ∧
      ∃ made t, (j.record s.disk batch fate.append).disk.openFile j.temporary = (made, .ok t))
  short : held.length + batch.length ≤ limit →
    Within p limit (s.step p (.record batch fate)).1 (held ++ batch)
  compacted : s.store.rewrites s.disk batch fate = true →
    Within p limit (s.step p (.record batch fate)).1
      (s.step p (.record batch fate)).1.store.rota.history
  failed : limit < held.length + batch.length → s.store.rewrites s.disk batch fate = false →
    Files p (s.step p (.record batch fate)).1 (held ++ batch)

theorem Counts.rewrites_iff (h : Counts p limit s edits)
    (hdone : (s.step p (.record batch fate)).2 = none) {j : Journal}
    (hjournal : s.store.journal = some j) : s.store.rewrites s.disk batch fate = true ↔
      limit < edits.length + batch.length ∧ fate.compaction = .complete ∧
        ∃ made t,
          (j.record s.disk batch fate.append).disk.openFile j.temporary = (made, .ok t) := by
  obtain ⟨j', hjournal', hfollows⟩ := h.journal
  obtain rfl : j' = j := Option.some.inj (hjournal'.symm.trans hjournal)
  have hwritten : (j'.record s.disk batch fate.append).failure = none :=
    (j'.failure_record s.disk batch fate.append).trans ((answer_step hjournal batch fate) ▸ hdone)
  have hrecords : (j'.record s.disk batch fate.append).journal.records =
      edits.length + batch.length := by
    rw [Journal.records_record, if_pos hwritten, hfollows.records]
  have htemporary : (j'.record s.disk batch fate.append).journal.temporary = j'.temporary := by
    unfold Journal.temporary
    rw [Journal.path_record]
  rw [Store.rewrites_eq_true_iff hjournal, hrecords, h.threshold,
    Journal.failure_replace_eq_none, htemporary]
  exact and_iff_right hwritten

theorem acknowledged_of_step {j : Journal} (hjournal : s.store.journal = some j)
    (hdone : (s.step p (.record batch fate)).2 = none) :
    (⟨batch, fate.append⟩ : Append).acknowledged = true := by
  rw [answer_step hjournal] at hdone
  exact Option.isNone_iff_eq_none.mpr hdone

theorem Counts.kept (h : Counts p limit s edits)
    (hdone : (s.step p (.record batch fate)).2 = none)
    (hnot : s.store.rewrites s.disk batch fate = false) :
    Counts p limit (s.step p (.record batch fate)).1 (edits ++ batch) := by
  obtain ⟨j, hjournal, -⟩ := h.journal
  have hrecord := h.record (Or.inl (acknowledged_of_step hjournal hdone))
  rw [if_neg (by simp [hnot]), if_pos hdone] at hrecord
  exact hrecord

theorem Counts.compacted (h : Counts p limit s edits)
    (hrewrites : s.store.rewrites s.disk batch fate = true) :
    Counts p limit (s.step p (.record batch fate)).1
      (s.step p (.record batch fate)).1.store.rota.history := by
  obtain ⟨j, hjournal, -⟩ := h.journal
  have hdone : (s.step p (.record batch fate)).2 = none := Store.failure_of_rewrites hrewrites
  have hrecord := h.record (Or.inl (acknowledged_of_step hjournal hdone))
  rw [if_pos hrewrites] at hrecord
  have hrota : (s.step p (.record batch fate)).1.store.rota = s.store.rota.applyAll batch := by
    rw [hrecord.rota, Rota.ofHistory_history]
    exact Rota.keyed_applyAll h.keyed batch
  rw [hrota]
  exact hrecord

theorem Counts.keepsShort (h : Counts p limit s edits)
    (hdone : (s.step p (.record batch fate)).2 = none) :
    KeepsShort p limit s edits batch fate where
  tried := fun _ hjournal => h.rewrites_iff hdone hjournal
  short := by
    intro hshort
    obtain ⟨j, hjournal, -⟩ := h.journal
    have hnot : s.store.rewrites s.disk batch fate = false := by
      rw [← Bool.not_eq_true, h.rewrites_iff hdone hjournal]
      omega
    refine ⟨(h.kept hdone hnot).files, ?_⟩
    rw [List.length_append]
    omega
  compacted := by
    intro hcompacted
    refine ⟨(h.compacted hcompacted).files, ?_⟩
    rw [Rota.length_history]
    exact Nat.le_max_right _ _
  failed := fun _ hnot => (h.kept hdone hnot).files

/-- A store that was opened on any journal, and has recorded batches of which none failed with bytes
in the file, counts the edits in its file.  A further record leaves no more of them than the
threshold or one for each entry of the rota: it compacts if it must.  Should that fail, the file
holds the full history, and the next record compacts, whatever it records. -/
theorem journal_stays_short {d d' : Disk} {text : String} {store : Store}
    (hopen : Store.ofJournal d (.ofText text) = (d', .ok store)) (threshold : Nat)
    {before : List (List Edit × RecordFate)}
    (hbefore : ∀ r ∈ before, (⟨r.1, r.2.append⟩ : Append).Clean) :
    let p := Path.ofText text
    let limit := max threshold 1
    let found := (run p ⟨d', store.withThreshold threshold⟩
      (before.map fun r => .record r.1 r.2)).1
    ∃ held, Files p found held ∧
      ∀ batch fate, (found.step p (.record batch fate)).2 = none →
        KeepsShort p limit found held batch fate ∧
        (limit < held.length + batch.length →
          found.store.rewrites found.disk batch fate = false →
          let after := (found.step p (.record batch fate)).1
          ∀ next fate', (after.step p (.record next fate')).2 = none →
            limit < (held ++ batch).length + next.length ∧
              KeepsShort p limit after (held ++ batch) next fate') := by
  intro p limit found
  obtain ⟨edits, hcounts⟩ := counts_of_ofJournal hopen
  obtain ⟨held, hfound⟩ := (hcounts.withThreshold threshold).run hbefore
  refine ⟨held, hfound.files, ?_⟩
  intro batch fate hdone
  refine ⟨hfound.keepsShort hdone, ?_⟩
  intro hdue hnot after next fate' hnext
  refine ⟨?_, (hfound.kept hdone hnot).keepsShort hnext⟩
  rw [List.length_append]
  omega

/-- A journal of three edits and a torn frame, for a rota of one member.  Two records of nothing
fail to compact it to its limit of one, and the third does not. -/
theorem journal_stays_short_third_attempt :
    let p := Path.ofText "rota.journal"
    let registered : Edit := .memberRegistered (.ofNat 1) ⟨.ofNat 9, .staff⟩
    let held : List Edit :=
      [registered, .shiftAdded ⟨.ofNat 5, .ofNat 1, 2, 480, 720⟩, .shiftRemoved (.ofNat 5)]
    let d : Disk :=
      ⟨[(#["rota.journal"], .file (Frame.ofEdits held ++ [40, 0, 0, 0, 7]))]⟩
    ∃ d' store, Store.ofJournal d p = (d', .ok store) ∧
      let found := (run p ⟨d', store.withThreshold 0⟩ [.record [] ⟨.complete, .refused⟩]).1
      let after := (found.step p (.record [] ⟨.complete, .failed 3⟩)).1
      let last := (after.step p (.record [] .complete)).1
      Files p found held ∧ Files p after held ∧ Within p 1 last [registered] := by
  intro p registered held d
  have hadmits : d.Admits p (some (Frame.ofEdits held ++ [40, 0, 0, 0, 7])) := by
    refine ⟨⟨_, rfl⟩, ?_, ?_, #["rota.journal"], ?_, ?_⟩ <;> decide +kernel
  have hrun : (match Store.ofJournal d p with
      | (d', .ok store) =>
        let found := (run p ⟨d', store.withThreshold 0⟩ [.record [] ⟨.complete, .refused⟩]).1
        let after := found.step p (.record [] ⟨.complete, .failed 3⟩)
        let last := after.1.step p (.record [] .complete)
        some ((Journal.read found.disk p).toOption.map Recovery.edits,
          (after.2, found.store.rewrites found.disk [] ⟨.complete, .failed 3⟩),
          (last.2, after.1.store.rewrites after.1.disk [] .complete), last.1.store.rota.history)
      | _ => none) = some (some held, (none, false), (none, true), [registered]) := by
    decide +kernel
  obtain ⟨d', store, -, hopen, -⟩ := Store.ofJournal_of_admits hadmits
  have hbefore : ∀ r ∈ [(([] : List Edit), (⟨.complete, .refused⟩ : RecordFate))],
      (⟨r.1, r.2.append⟩ : Append).Clean := by
    intro r hr
    rw [List.mem_singleton.mp hr]
    exact Or.inl rfl
  obtain ⟨found', hfiles, hrecords⟩ := journal_stays_short hopen 0 hbefore
  rw [hopen] at hrun
  simp only [Option.some.injEq, Prod.mk.injEq] at hrun
  obtain ⟨hread, ⟨hfirst, hnot⟩, ⟨hsecond, hcompacts⟩, hhistory⟩ := hrun
  -- What the file is found to hold is what reading it gives.
  have hheld : held = found' := by
    obtain ⟨length, hreads⟩ := hfiles.read
    change Journal.read (run p ⟨d', store.withThreshold 0⟩
      [.record [] ⟨.complete, .refused⟩]).1.disk p = _ at hreads
    rw [hreads] at hread
    exact (Option.some.inj hread).symm
  subst found'
  obtain ⟨hshort, hagain⟩ := hrecords [] ⟨.complete, .failed 3⟩ hfirst
  have hdue : max 0 1 < held.length + ([] : List Edit).length := by decide
  obtain ⟨-, hlast⟩ := hagain hdue hnot [] .complete hsecond
  have hcompacted := hlast.compacted hcompacts
  have hkept := hshort.failed hdue hnot
  refine ⟨d', store, hopen, hfiles, hkept, ?_⟩
  rw [← hhistory]
  exact hcompacted

end Session

end NurseryRota
