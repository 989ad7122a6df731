import NurseryRota.Command

/-!
# The program

Everything that the command decides is decided on a `Disk`.  The program takes the places that an
invocation names from the file system, runs the command on them and brings the differences back.
-/

namespace NurseryRota

namespace Location

def text (l : Location) : String :=
  match l.toList with
  | "/" :: names => "/" ++ "/".intercalate names
  | names => "/".intercalate names

end Location

namespace Disk

def passed (start : Location) : List Step → List Location
  | [] => []
  | .up :: rest => above start :: passed (above start) rest
  | .down name :: rest => start.push name :: passed (start.push name) rest

end Disk

/-- The places that an invocation may look at, each once, a directory before what it holds. -/
def Invocation.places (i : Invocation) : List Location :=
  let journal := Path.ofText ((i.environment .journal).getD standardJournalPath)
  let named := (i.arguments ++ (i.environment .rules).toList).map Path.ofText
  let passed := (journal :: journal.withExtension "journal.tmp" :: named).flatMap fun p =>
    Disk.passed (Disk.base p) p.steps
  passed.eraseDups

def fetch (d : Disk) (l : Location) : IO Disk := do
  let path := (← IO.currentDir) / l.text
  if Disk.isFixed l then return d
  else if ← path.isDir then return d.put l .directory
  else if ← path.pathExists then
    return d.put l (.file (← IO.FS.readBinFile path).data.toList)
  else return d

/-- What is to be done at a place so that the file system has it as the disk does. -/
inductive Difference
  | removed
  | made
  /-- A file has grown, and is added to. -/
  | grown (added : Bytes)
  /-- A file is replaced at once. -/
  | replaced (content : Bytes)
deriving DecidableEq

namespace Disk

/-- What has become of a place between two disks, if anything. -/
def difference? (old new : Disk) (l : Location) : Option Difference :=
  if old.node? l = new.node? l then none
  else
    match new.node? l with
    | none => some .removed
    | some .directory => some .made
    | some (.file bytes) =>
      let before := old.content l
      if (old.node? l).isSome && before.isPrefixOf bytes then
        some (.grown (bytes.drop before.length))
      else some (.replaced bytes)

theorem difference?_eq_none_iff {old new : Disk} {l : Location} :
    old.difference? new l = none ↔ old.node? l = new.node? l := by
  unfold difference?
  dsimp only
  split
  · next hsame => exact iff_of_true rfl hsame
  · next hother =>
      refine iff_of_false ?_ hother
      split
      · simp
      · simp
      · split <;> simp

end Disk

def putBack (l : Location) : Option Difference → IO Unit
  | none => return ()
  | some .removed => IO.FS.removeFile l.text
  | some .made => IO.FS.createDir l.text
  | some (.grown added) => do
    let file ← IO.FS.Handle.mk l.text .append
    file.write ⟨added.toArray⟩
    file.flush
  | some (.replaced content) => do
    let prepared := l.text ++ ".new"
    IO.FS.writeBinFile prepared ⟨content.toArray⟩
    IO.FS.rename prepared l.text

/-- The program serves no metrics and reaches no database. -/
def runProgram (arguments : List String) : IO UInt32 := do
  let settings ← Setting.all.mapM fun s => return (s, ← IO.getEnv s.key)
  let i : Invocation := ⟨arguments, fun s => (settings.lookup s).join⟩
  let places := i.places
  let disk ← places.foldlM fetch .empty
  let r := Command.run disk i .bare
  places.forM fun l => putBack l (disk.difference? r.disk l)
  for notice in r.notices do IO.eprintln ("ERROR " ++ notice)
  if r.complaint ≠ "" then IO.eprintln r.complaint
  if let some text := r.output then IO.print text
  return UInt32.ofNat r.exitCode

end NurseryRota

def main (arguments : List String) : IO UInt32 := NurseryRota.runProgram arguments
