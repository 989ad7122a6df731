import NurseryRota.Bytes
import NurseryRota.Disk.Path

/-!
# Disks

A disk holds files and directories by location.  A location is the sequence of names that leads
there; the working directory and the root are always present.  `Disk.node?` is the view of a
disk that everything else is read through.  Operations are pure: each gives the disk that it
leaves behind, also where it fails half-way.
-/

namespace NurseryRota

inductive DiskError
  | notFound
  | alreadyExists
  | notADirectory
  | isADirectory
  | nameTooLong
  /-- A write was cut short. -/
  | noSpace
  | invalidName
  | notText
deriving DecidableEq, Repr

namespace DiskError

/-- The number, kind and text of an error that the operating system reports. -/
def system? : DiskError → Option (Nat × String × String)
  | notFound => some (2, "NotFound", "No such file or directory")
  | alreadyExists => some (17, "AlreadyExists", "File exists")
  | notADirectory => some (20, "NotADirectory", "Not a directory")
  | isADirectory => some (21, "IsADirectory", "Is a directory")
  | noSpace => some (28, "StorageFull", "No space left on device")
  | nameTooLong => some (36, "InvalidFilename", "File name too long")
  | invalidName => none
  | notText => none

/-- The kind and text of an error found without the operating system. -/
def own : DiskError → String × String
  | notText => ("InvalidData", "stream did not contain valid UTF-8")
  | _ => ("InvalidInput", "file name contained an unexpected NUL byte")

def message (e : DiskError) : String :=
  match e.system? with
  | some (code, _, text) => text ++ " (os error " ++ toString code ++ ")"
  | none => e.own.2

def detail (e : DiskError) : String :=
  match e.system? with
  | some (code, kind, text) =>
    "Os \x7b code: " ++ toString code ++ ", kind: " ++ kind ++ ", message: \"" ++ text ++
      "\" \x7d"
  | none =>
    "Error \x7b kind: " ++ e.own.1 ++ ", message: \"" ++ e.own.2 ++ "\" \x7d"

end DiskError

/-- The names that lead to a place from the working directory.  The name `/` stands for the root
and comes first; a place above the working directory begins with the name `..`.  An array keeps
the comparison of places at different depths short. -/
abbrev Location := Array String

inductive Node
  | directory
  | file (content : Bytes)
deriving DecidableEq

/-- Files and directories by location.  The root, the working directory and the directories
above it are left out. -/
structure Disk where
  nodes : List (Location × Node)

inductive WriteFate
  | complete
  /-- The first `written` bytes reach the file, and the write is reported as failed. -/
  | failed (written : Nat)
  /-- The file cannot be made or opened, and nothing is done to it. -/
  | refused
deriving DecidableEq, Repr

namespace WriteFate

def reaching (fate : WriteFate) (bytes : Bytes) : Bytes :=
  match fate with
  | complete => bytes
  | failed written => bytes.take written
  | refused => []

def failure? : WriteFate → Option DiskError
  | complete => none
  | failed _ => some .noSpace
  | refused => some .noSpace

end WriteFate

def maxNameSize : Nat := 255

def maxPathSize : Nat := 4095

namespace Disk

def empty : Disk := ⟨[]⟩

/-- The root, the working directory and those above it are directories on every disk. -/
def isFixed (l : Location) : Bool := l = #["/"] || l.toList.all (· = "..")

def node? (d : Disk) (l : Location) : Option Node :=
  if isFixed l then some .directory else d.nodes.lookup l

def put (d : Disk) (l : Location) (n : Node) : Disk :=
  ⟨(l, n) :: d.nodes.filter fun e => e.1 ≠ l⟩

def drop (d : Disk) (l : Location) : Disk := ⟨d.nodes.filter fun e => e.1 ≠ l⟩

theorem lookup_filter_ne (nodes : List (Location × Node)) {l m : Location} (h : m ≠ l) :
    (nodes.filter fun e => e.1 ≠ l).lookup m = nodes.lookup m := by
  induction nodes with
  | nil => rfl
  | cons e rest ih =>
    obtain ⟨k, n⟩ := e
    by_cases hk : k = l
    · subst hk
      have hne : (m == k) = false := beq_eq_false_iff_ne.2 h
      simpa [List.lookup_cons, hne] using ih
    · simp only [ne_eq, hk, not_false_eq_true, decide_true, List.filter_cons_of_pos,
        List.lookup_cons]
      cases m == k
      · simpa using ih
      · rfl

theorem lookup_filter_self (nodes : List (Location × Node)) (l : Location) :
    (nodes.filter fun e => e.1 ≠ l).lookup l = none := by
  induction nodes with
  | nil => rfl
  | cons e rest ih =>
    obtain ⟨k, n⟩ := e
    by_cases hk : k = l
    · simpa [hk] using ih
    · have hne : (l == k) = false := beq_eq_false_iff_ne.2 fun h => hk h.symm
      simpa [hk, List.lookup_cons, hne] using ih

theorem node?_put (d : Disk) (l m : Location) (n : Node) (hl : isFixed l = false) :
    (d.put l n).node? m = if m = l then some n else d.node? m := by
  by_cases hm : m = l
  · subst hm
    simp [node?, put, hl]
  · have hne : (m == l) = false := beq_eq_false_iff_ne.2 hm
    simp only [node?, put, List.lookup_cons, hne, lookup_filter_ne d.nodes hm, if_neg hm]

theorem node?_drop (d : Disk) (l m : Location) (hl : isFixed l = false) :
    (d.drop l).node? m = if m = l then none else d.node? m := by
  by_cases hm : m = l
  · subst hm
    simp only [node?, drop, hl, lookup_filter_self d.nodes m, if_true, Bool.false_eq_true,
      if_false]
  · simp only [node?, drop, lookup_filter_ne d.nodes hm, if_neg hm]

def base (p : Path) : Location := if p.absolute then #["/"] else #[]

/-- The directory above a location; the root is above itself. -/
def above (l : Location) : Location :=
  if l = #["/"] then l else if isFixed l then l.push ".." else l.pop

/-- The location that a walk leads to.  Every directory on the way must exist; the last name
need not. -/
def walk (d : Disk) (start : Location) : List Step → Except DiskError Location
  | [] => .ok start
  | .up :: rest => d.walk (above start) rest
  | .down name :: rest =>
    if maxNameSize < name.utf8ByteSize then .error .nameTooLong
    else if rest = [] then .ok (start.push name)
    else
      match d.node? (start.push name) with
      | some .directory => d.walk (start.push name) rest
      | some (.file _) => .error .notADirectory
      | none => .error .notFound

def refusal? (p : Path) : Option DiskError :=
  if p.text.toList.contains '\x00' then some .invalidName
  else if p.text.isEmpty then some .notFound
  else if maxPathSize < p.text.utf8ByteSize then some .nameTooLong
  else none

def locate (d : Disk) (p : Path) : Except DiskError Location :=
  match refusal? p with
  | some e => .error e
  | none => d.walk (base p) p.steps

/-- The content of the file at a location; nothing else has any. -/
def content (d : Disk) (l : Location) : Bytes :=
  match d.node? l with
  | some (.file bytes) => bytes
  | _ => []

def fileBytes (d : Disk) (p : Path) : Except DiskError Bytes :=
  match d.locate p with
  | .error e => .error e
  | .ok l =>
    match d.node? l with
    | none => .error .notFound
    | some .directory => .error .isADirectory
    | some (.file bytes) => if p.ending = .name then .ok bytes else .error .notADirectory

def fileText (d : Disk) (p : Path) : Except DiskError String :=
  match d.fileBytes p with
  | .error e => .error e
  | .ok bytes =>
    match Bytes.text? bytes with
    | none => .error .notText
    | some s => .ok s

/-- Makes the directories of a walk that do not exist yet; `made` says whether one was made
before.  The whole walk is tried first, and that meets a file on the way as no directory.  Once a
directory was missing the rest of the walk is made step by step, and a file there stands where a
directory is to be made. -/
def makeAlong (d : Disk) (start : Location) (made : Bool) : List Step → Disk × Option DiskError
  | [] => (d, none)
  | .up :: rest => d.makeAlong (above start) made rest
  | .down name :: rest =>
    if maxNameSize < name.utf8ByteSize then (d, some .nameTooLong)
    else
      let l := start.push name
      match d.node? l with
      | some .directory => d.makeAlong l made rest
      | some (.file _) =>
        (d, some (if made || rest = [] then .alreadyExists else .notADirectory))
      | none => (d.put l .directory).makeAlong l true rest

/-- Makes the directory at a path, and those on the way to it, where they are missing.  The empty
path is the working directory, which is there. -/
def makeDirectories (d : Disk) (p : Path) : Disk × Option DiskError :=
  if p.text.isEmpty then (d, none)
  else
    match refusal? p with
    | some e => (d, some e)
    | none => d.makeAlong (base p) false p.steps

def makeWay (d : Disk) (p : Path) : Disk × Option DiskError :=
  match p.directory? with
  | none => (d, none)
  | some directory => d.makeDirectories directory

/-- The location of a file that may be written, which is made if it is missing. -/
def openFile (d : Disk) (p : Path) : Disk × Except DiskError Location :=
  match d.locate p with
  | .error e => (d, .error e)
  | .ok l =>
    match d.node? l with
    | some .directory => (d, .error .isADirectory)
    | some (.file _) => if p.ending = .name then (d, .ok l) else (d, .error .notADirectory)
    | none =>
      match p.ending with
      | .name => (d.put l (.file []), .ok l)
      | .slash => (d, .error .isADirectory)
      | .dots => (d, .error .notFound)

def setContent (d : Disk) (l : Location) (bytes : Bytes) : Disk := d.put l (.file bytes)

/-- The disk on which the file at one location has taken the place of another. -/
def rename (d : Disk) (source target : Location) : Disk :=
  (d.drop source).put target (.file (d.content source))

/-- The disk of a list of files, with the directories they stand in. -/
def ofFiles (files : List (String × Bytes)) : Disk :=
  files.foldl (fun d (name, bytes) =>
    let p := Path.ofText name
    match (d.makeWay p).1.openFile p with
    | (d, .ok l) => d.setContent l bytes
    | (d, .error _) => d) empty

end Disk

namespace Bytes

/-- Writes `new` at a position; a gap before it is filled with zeros. -/
def overwrite (old : Bytes) (position : Nat) (new : Bytes) : Bytes :=
  old.take position ++ List.replicate (position - old.length) 0 ++ new ++
    old.drop (position + new.length)

theorem overwrite_end (old new : Bytes) : overwrite old old.length new = old ++ new := by
  simp [overwrite]

end Bytes

end NurseryRota
