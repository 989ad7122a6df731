import NurseryRota.Journal

/-!
# The store

A store is a rota in memory, with a journal behind it or without.  A batch of edits is journaled
first and applied then, so a batch that could not be journaled changes nothing in memory.  Once
the journal holds more edits than the threshold it is compacted to the history of the current
state; a compaction that fails is no failure of the batch.
-/

namespace NurseryRota

/-- The number of journaled edits above which a store compacts its journal, unless told
otherwise. -/
def standardThreshold : Nat := 1000

structure Store where
  rota : Rota
  journal : Option Journal
  threshold : Nat

/-- What a store's record leaves behind, and its failure if it failed. -/
structure Recorded where
  disk : Disk
  store : Store
  failure : Option DiskError

structure RecordFate where
  append : WriteFate
  compaction : WriteFate

def RecordFate.complete : RecordFate := ⟨.complete, .complete⟩

namespace Store

def empty : Store := ⟨.empty, none, standardThreshold⟩

def ofJournal (d : Disk) (p : Path) : Disk × Except DiskError Store :=
  match Journal.openAt d p with
  | (d, .error e) => (d, .error e)
  | (d, .ok (journal, recovery)) =>
    (d, .ok ⟨.ofHistory recovery.edits, some journal, standardThreshold⟩)

def withThreshold (s : Store) (threshold : Nat) : Store :=
  { s with threshold := max threshold 1 }

/-- The store with another rota, whose change is not journaled. -/
def withRota (s : Store) (r : Rota) : Store := { s with rota := r }

/-- Replaces the journal by the history of the current state if it has grown beyond the
threshold.  A replacement that fails leaves the full history. -/
def compact (s : Store) (d : Disk) (fate : WriteFate) : Disk × Store :=
  match s.journal with
  | none => (d, s)
  | some journal =>
    if s.threshold < journal.records then
      let written := journal.replace d s.rota.history fate
      (written.disk, { s with journal := some written.journal })
    else (d, s)

def record (s : Store) (d : Disk) (batch : List Edit) (fate : RecordFate) : Recorded :=
  match s.journal with
  | none => ⟨d, s.withRota (s.rota.applyAll batch), none⟩
  | some journal =>
    let written := journal.record d batch fate.append
    let s := { s with journal := some written.journal }
    match written.failure with
    | some e => ⟨written.disk, s, some e⟩
    | none =>
      let (d, s) := (s.withRota (s.rota.applyAll batch)).compact written.disk fate.compaction
      ⟨d, s, none⟩

end Store

end NurseryRota
