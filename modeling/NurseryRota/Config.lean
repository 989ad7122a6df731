import NurseryRota.Digits
import NurseryRota.Disk
import NurseryRota.Validator
import NurseryRota.Staffing.RulesDocument
import NurseryRota.Store
import NurseryRota.Text.Blank

/-!
# Configuration

The program is configured by variables.  A variable that is not set has its default; one that is
set must be right, and the first wrong one is reported: the rules are looked at first, then the
policy, then the numbers of the metrics endpoint, the limit and the threshold.
-/

namespace NurseryRota

inductive Setting
  | rules | policy | databaseUrl | journal | metricsPort | maxShifts | threshold
deriving DecidableEq, Repr

namespace Setting

def all : List Setting :=
  [rules, policy, databaseUrl, journal, metricsPort, maxShifts, threshold]

def key : Setting → String
  | rules => "ROTA_RULES"
  | policy => "ROTA_RATIO_POLICY"
  | databaseUrl => "ROTA_DATABASE_URL"
  | journal => "ROTA_JOURNAL"
  | metricsPort => "ROTA_METRICS_PORT"
  | maxShifts => "ROTA_MAX_SHIFTS"
  | threshold => "ROTA_COMPACT_THRESHOLD"

end Setting

abbrev Environment := Setting → Option String

inductive ConfigError
  | unreadable (path : String) (cause : DiskError)
  | invalidRules (cause : RulesFault)
  | invalidPolicy (name : String)
  | invalidValue (setting : Setting) (value : String)

namespace ConfigError

def message : ConfigError → String
  | unreadable path cause => "cannot read " ++ path ++ ": " ++ cause.message
  | invalidRules cause => "invalid ratio rules: " ++ cause.message
  | invalidPolicy name =>
    "invalid ratio policy: " ++ name ++ " (expected per_band or pooled)"
  | invalidValue setting value =>
    "invalid value for " ++ setting.key ++ ": " ++ Quoted.quote value

def detail : ConfigError → String
  | unreadable path cause =>
    "Io \x7b path: " ++ Quoted.quote path ++ ", error: " ++
      Quoted.quote cause.message ++ " \x7d"
  | invalidRules cause => "InvalidRules(" ++ Quoted.quote cause.message ++ ")"
  | invalidPolicy name => "InvalidPolicy(" ++ Quoted.quote name ++ ")"
  | invalidValue setting value =>
    "InvalidValue \x7b key: " ++ Quoted.quote setting.key ++ ", value: " ++
      Quoted.quote value ++ " \x7d"

end ConfigError

structure Config where
  databaseUrl : Option String
  journalPath : String
  rules : Rules
  policy : Policy
  metricsPort : Option Nat
  maxShifts : Nat
  threshold : Nat
deriving DecidableEq

def standardJournalPath : String := "./data/rota.journal"

namespace Config

/-- The number of so many bits that characters denote: decimal digits, of which there is at least
one, with a plus sign in front or without. -/
def number? (bits : Nat) (cs : List Char) : Option Nat :=
  let digits := if cs.head? = some '+' then cs.drop 1 else cs
  if digits ≠ [] && digits.all Char.isDigit && ofDecimal digits < capacity bits then
    some (ofDecimal digits)
  else none

/-- The number that a variable denotes, with blanks around it or without; none if it is not
set. -/
def number (env : Environment) (setting : Setting) (bits : Nat) :
    Except ConfigError (Option Nat) :=
  match env setting with
  | none => .ok none
  | some value =>
    match number? bits (Blank.trim value.toList) with
    | some n => .ok (some n)
    | none => .error (.invalidValue setting value)

def loadRules (d : Disk) (path : String) : Except ConfigError Rules :=
  match d.fileText (.ofText path) with
  | .error cause => .error (.unreadable path cause)
  | .ok text => (Rules.parse text).mapError .invalidRules

def rulesOf (d : Disk) (env : Environment) : Except ConfigError Rules :=
  match env .rules with
  | none => .ok .standard
  | some path => loadRules d path

def policyOf (env : Environment) : Except ConfigError Policy :=
  match env .policy with
  | none => .ok .perBand
  | some name => (Policy.ofName name).mapError fun _ => .invalidPolicy name

def load (d : Disk) (env : Environment) : Except ConfigError Config := do
  let rules ← rulesOf d env
  let policy ← policyOf env
  let metricsPort ← number env .metricsPort 16
  let maxShifts ← number env .maxShifts 64
  let threshold ← number env .threshold 64
  return {
    databaseUrl := (env .databaseUrl).filter (· ≠ "")
    journalPath := (env .journal).getD standardJournalPath
    rules
    policy
    metricsPort
    maxShifts := maxShifts.getD standardMaxShifts
    threshold := threshold.getD standardThreshold }

def engine (c : Config) : Validator := ⟨c.rules, c.policy, c.maxShifts⟩

end Config

end NurseryRota
