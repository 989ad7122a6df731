import NurseryRota.Disk
import NurseryRota.Journal.Recovery

/-!
# The edit journal

A journal is a file of frames together with a handle for writing to it.  Opening cuts a damaged
tail off, so that later records stay reachable.  A record adds frames; a replacement puts a new
list of edits into a temporary file and then renames it over the journal, so one that fails
leaves the journal as it was.
-/

namespace NurseryRota

inductive Cursor
  | atEnd
  | fixed (position : Nat)
deriving DecidableEq, Repr

structure Journal where
  path : Path
  location : Location
  cursor : Cursor
  /-- The edits in the file, counted since it was opened or replaced. -/
  records : Nat

/-- What a writing operation leaves behind, and its failure if it failed. -/
structure Written where
  disk : Disk
  journal : Journal
  failure : Option DiskError

namespace Journal

/-- What the journal at a path holds; a missing file is an empty journal. -/
def read (d : Disk) (p : Path) : Except DiskError Recovery :=
  match d.fileBytes p with
  | .ok bytes => .ok (.ofBytes bytes)
  | .error .notFound => .ok .empty
  | .error e => .error e

/-- Opens the journal at a path, and makes it and its directories if they are missing. -/
def openAt (d : Disk) (p : Path) : Disk × Except DiskError (Journal × Recovery) :=
  match d.makeWay p with
  | (d, some e) => (d, .error e)
  | (d, none) =>
    match read d p with
    | .error e => (d, .error e)
    | .ok recovery =>
      match d.openFile p with
      | (d, .error e) => (d, .error e)
      | (d, .ok l) =>
        let d :=
          if recovery.damage.isSome then d.setContent l ((d.content l).take recovery.validLength)
          else d
        (d, .ok (⟨p, l, .atEnd, recovery.edits.length⟩, recovery))

def write (j : Journal) (d : Disk) (bytes : Bytes) : Disk × Journal :=
  let old := d.content j.location
  match j.cursor with
  | .atEnd => (d.setContent j.location (old ++ bytes), j)
  | .fixed position =>
    (d.setContent j.location (old.overwrite position bytes),
      { j with cursor := .fixed (position + bytes.length) })

/-- Adds the frames of a batch.  An empty batch writes nothing; a batch whose write fails does
not count, whatever part of it reached the file. -/
def record (j : Journal) (d : Disk) (batch : List Edit) (fate : WriteFate) : Written :=
  if batch = [] then ⟨d, j, none⟩
  else
    let (d, j) := j.write d (fate.reaching (Frame.ofEdits batch))
    match fate.failure? with
    | some e => ⟨d, j, some e⟩
    | none => ⟨d, { j with records := j.records + batch.length }, none⟩

def temporary (j : Journal) : Path := j.path.withExtension "journal.tmp"

def prepare (j : Journal) (d : Disk) (bytes : Bytes) (fate : WriteFate) :
    Disk × Except DiskError Location :=
  if fate = .refused then (d, .error .noSpace)
  else
    match d.openFile j.temporary with
    | (d, .error e) => (d, .error e)
    | (d, .ok l) =>
      let d := d.setContent l (fate.reaching bytes)
      match fate.failure? with
      | some e => (d, .error e)
      | none => (d, .ok l)

/-- Replaces what the journal holds by a list of edits.  The handle stays on the new file, at
its end. -/
def replace (j : Journal) (d : Disk) (edits : List Edit) (fate : WriteFate) : Written :=
  let bytes := Frame.ofEdits edits
  match j.prepare d bytes fate with
  | (d, .error e) => ⟨d, j, some e⟩
  | (d, .ok l) =>
    ⟨d.rename l j.location,
      { j with cursor := .fixed bytes.length, records := edits.length }, none⟩

end Journal

end NurseryRota
