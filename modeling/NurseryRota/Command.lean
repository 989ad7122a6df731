import NurseryRota.Config
import NurseryRota.Edit.Json
import NurseryRota.Report.Json

/-!
# The command

Without arguments the command validates what the journal holds, or the database if one is
configured; with `record` and a file it first journals the edits in it.  Nothing is written before
the configuration, the arguments and every line of the file have been found right and the metrics
are served.  The exit code is 0 for a clean report, 1 for one with entries or when the run breaks
off, and 2 when the run is refused.
-/

namespace NurseryRota

structure Invocation where
  arguments : List String
  environment : Environment

/-- What a run reaches besides its disk: whether the metrics can be served at a port, and what is
found behind the address of a database. -/
structure Surroundings where
  serve : Nat → Except String Unit
  connect : String → Except SourceError Source

/-- Every port is free, and no database is to be reached. -/
def Surroundings.bare : Surroundings where
  serve _ := .ok ()
  connect _ := .error (.unavailable "error connecting to server")

inductive CommandError
  | config (cause : ConfigError)
  /-- The metrics cannot be served at the configured port. -/
  | exporter (cause : String)
  | usage
  | disk (cause : DiskError)
  /-- A line of the file of edits, counted from one, is no edit.  What is wrong with it is left
  out. -/
  | badEdit (path : String) (line : Nat)
  /-- Edits cannot be recorded while a database is configured. -/
  | recordToDatabase
  | database (cause : SourceError)
  | pass (cause : PassError)

namespace CommandError

def refusal? : CommandError → Option String
  | usage => some "usage: rota [record <edits.jsonl>]"
  | recordToDatabase => some "record writes to the journal; unset ROTA_DATABASE_URL"
  | pass cause => some ("validation failed: " ++ cause.message)
  | _ => none

def breakdown? : CommandError → Option String
  | config cause => some cause.detail
  | exporter cause => some cause
  | disk cause => some cause.detail
  | badEdit path line => some (Quoted.quote (path ++ ":" ++ toString line))
  | database cause => some cause.detail
  | _ => none

/-- A refused run exits with 2, one that broke off with 1. -/
def exitCode (e : CommandError) : Nat := if e.refusal?.isSome then 2 else 1

end CommandError

/-- Starts to serve the metrics where a port is configured. -/
def Surroundings.serveMetrics (around : Surroundings) : Option Nat → Except CommandError Unit
  | none => .ok ()
  | some port => (around.serve port).mapError .exporter

/-- What a run leaves behind: its disk, and its report or why there is none. -/
structure Run where
  disk : Disk
  result : Except CommandError Report

namespace Run

def exitCode (r : Run) : Nat :=
  match r.result with
  | .error e => e.exitCode
  | .ok report => if report.isClean then 0 else 1

def output (r : Run) : Option String :=
  match r.result with
  | .error _ => none
  | .ok report => some (report.text ++ "\n")

def notices (r : Run) : List String :=
  match r.result with
  | .error e => e.refusal?.toList
  | .ok _ => []

def complaint (r : Run) : String :=
  match r.result with
  | .error e => (e.breakdown?.map ("Error: " ++ ·)).getD ""
  | .ok _ => ""

end Run

namespace Command

/-- The lines of a text without their ends, each of which is a newline with or without a carriage
return before it.  The last line needs no end, and there is none behind the last end. -/
def lines : List Char → List (List Char)
  | [] => []
  | c :: rest =>
    if c = '\n' then [] :: lines rest
    else if c = '\r' ∧ rest.head? = some '\n' then lines rest
    else
      match lines rest with
      | [] => [[c]]
      | line :: more => (c :: line) :: more

/-- The edits of lines counted from `number`; blank lines hold none. -/
def editsOf (path : String) (number : Nat) : List (List Char) → Except CommandError (List Edit)
  | [] => .ok []
  | line :: rest =>
    if Blank.isBlank line then editsOf path (number + 1) rest
    else
      match Edit.ofLine? (String.ofList line) with
      | none => .error (.badEdit path number)
      | some e => (editsOf path (number + 1) rest).map (e :: ·)

def readEdits (d : Disk) (path : String) : Except CommandError (List Edit) :=
  match d.fileText (.ofText path) with
  | .error cause => .error (.disk cause)
  | .ok text => editsOf path 1 (lines text.toList)

/-- The edits that the arguments ask to record, if they ask for any. -/
def requested (d : Disk) : List String → Except CommandError (Option (List Edit))
  | [] => .ok none
  | [verb, path] => if verb = "record" then (readEdits d path).map some else .error .usage
  | _ => .error .usage

/-- The configuration and the edits of an invocation, once all of it has been found right. -/
def prepare (d : Disk) (i : Invocation) (around : Surroundings) :
    Except CommandError (Config × Option (List Edit)) := do
  let config ← (Config.load d i.environment).mapError .config
  around.serveMetrics config.metricsPort
  let edits ← requested d i.arguments
  if config.databaseUrl.isSome && edits.isSome then .error .recordToDatabase
  else return (config, edits)

def validate (config : Config) (source : Source) : Except CommandError Report :=
  (config.engine.validateByDay source .empty).1.mapError .pass

/-- Opens the journal, records the edits and validates what the store then holds. -/
def execute (d : Disk) (config : Config) (edits : Option (List Edit)) : Run :=
  match Store.ofJournal d (.ofText config.journalPath) with
  | (d, .error cause) => ⟨d, .error (.disk cause)⟩
  | (d, .ok s) =>
    let s := s.withThreshold config.threshold
    match edits with
    | none => ⟨d, validate config s.rota.source⟩
    | some edits =>
      let recorded := s.record d edits .complete
      match recorded.failure with
      | some cause => ⟨recorded.disk, .error (.disk cause)⟩
      | none => ⟨recorded.disk, validate config recorded.store.rota.source⟩

/-- Validates what a database holds. -/
def query (around : Surroundings) (config : Config) (url : String) :
    Except CommandError Report := do
  let source ← (around.connect url).mapError .database
  validate config source

def run (d : Disk) (i : Invocation) (around : Surroundings := .bare) : Run :=
  match prepare d i around with
  | .error e => ⟨d, .error e⟩
  | .ok (config, edits) =>
    match config.databaseUrl with
    | some url => ⟨d, query around config url⟩
    | none => execute d config edits

end Command

end NurseryRota
