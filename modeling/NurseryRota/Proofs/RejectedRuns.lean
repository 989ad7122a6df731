import NurseryRota.Main
import NurseryRota.Proofs.CommandRuns

/-!
# Rejected runs

A run is rejected for a variable, for its arguments, for any line of the file that it is to record,
or because a database is configured.  All of this is looked at before the journal is opened, so
that a rejected run leaves everything as it was, down to the torn frame at the end of a journal.
Whether the metrics can be served and what there is behind a database do not matter to that.
-/

namespace NurseryRota

/-! ## Wrong configurations -/

theorem Policy.ofName_eq_ok_iff {name : String} {policy : Policy} :
    ofName name = .ok policy ↔ policy.name = name := by
  constructor
  · intro h
    unfold ofName at h
    split at h
    · next found hfound =>
        obtain rfl := Except.ok.inj h
        simpa using List.find?_some hfound
    · cases h
  · rintro rfl
    cases policy <;> rfl

theorem Policy.succeeds_ofName_iff {name : String} :
    Succeeds (ofName name) ↔ ∃ policy : Policy, policy.name = name :=
  exists_congr fun _ => ofName_eq_ok_iff

namespace Config

/-- The variables that are set to numbers, and the bits of the numbers. -/
def numbers : List (Setting × Nat) := [(.metricsPort, 16), (.maxShifts, 64), (.threshold, 64)]

/-- Some variable is set to what it may not be. -/
inductive Wrong (d : Disk) (env : Environment) : Prop
  /-- The file is no text, the text no document of rules, or some ratio none that a configuration
  may have. -/
  | rules {path : String} (set : env .rules = some path)
      (unfit : ∀ text rules, d.fileText (.ofText path) = .ok text →
        RulesDocument.read text.toList = .ok rules → ¬ rules.Accepted)
  | policy {name : String} (set : env .policy = some name)
      (unknown : ∀ policy : Policy, policy.name ≠ name)
  | number {setting : Setting} {bits : Nat} {value : String} (numeric : (setting, bits) ∈ numbers)
      (set : env setting = some value) (unfit : number? bits (Blank.trim value.toList) = none)

variable {d : Disk} {env : Environment}

theorem succeeds_loadRules_iff {path : String} : Succeeds (loadRules d path) ↔
    ∃ text rules, d.fileText (.ofText path) = .ok text ∧
      RulesDocument.read text.toList = .ok rules ∧ rules.Accepted := by
  unfold loadRules
  cases d.fileText (.ofText path) with
  | error cause => exact iff_of_false (not_succeeds_error _) (by simp)
  | ok text =>
      dsimp only
      rw [succeeds_mapError_iff]
      simp only [← Rules.parse_eq_ok_iff, Except.ok.injEq, exists_and_left, exists_eq_left']
      exact Iff.rfl

theorem rulesOf_eq : rulesOf d env = (env .rules).elim (.ok .standard) (loadRules d) := by
  unfold rulesOf
  cases env .rules <;> rfl

theorem policyOf_eq : policyOf env = (env .policy).elim (.ok .perBand) fun name =>
    (Policy.ofName name).mapError fun _ => .invalidPolicy name := by
  unfold policyOf
  cases env .policy <;> rfl

theorem succeeds_number_iff {setting : Setting} {bits : Nat} :
    Succeeds (number env setting bits) ↔ ∀ value, env setting = some value →
      number? bits (Blank.trim value.toList) ≠ none := by
  unfold number
  cases env setting with
  | none => exact iff_of_true (succeeds_ok _) (by simp)
  | some value =>
      simp only [Option.some.injEq, forall_eq']
      cases number? bits (Blank.trim value.toList) with
      | none => exact iff_of_false (not_succeeds_error _) (by simp)
      | some n => exact iff_of_true (succeeds_ok _) (by simp)

theorem succeeds_load_iff : Succeeds (load d env) ↔
    Succeeds (rulesOf d env) ∧ Succeeds (policyOf env) ∧
      ∀ entry ∈ numbers, Succeeds (number env entry.1 entry.2) := by
  simp only [numbers, List.forall_mem_cons]
  constructor
  · rintro ⟨config, h⟩
    obtain ⟨_, _, _, _, _, hrules, hpolicy, hport, hshifts, hthreshold, -⟩ := load_eq_ok_iff.mp h
    exact ⟨⟨_, hrules⟩, ⟨_, hpolicy⟩, ⟨_, hport⟩, ⟨_, hshifts⟩, ⟨_, hthreshold⟩, by simp⟩
  · rintro ⟨⟨_, hrules⟩, ⟨_, hpolicy⟩, ⟨_, hport⟩, ⟨_, hshifts⟩, ⟨_, hthreshold⟩, -⟩
    exact ⟨_, load_eq_ok_iff.mpr
      ⟨_, _, _, _, _, hrules, hpolicy, hport, hshifts, hthreshold, rfl⟩⟩

/-- A configuration is refused exactly if a variable is wrong. -/
theorem wrong_iff : Wrong d env ↔ ¬ Succeeds (load d env) := by
  rw [succeeds_load_iff, rulesOf_eq, policyOf_eq]
  simp only [succeeds_elim_iff, succeeds_loadRules_iff, succeeds_mapError_iff,
    Policy.succeeds_ofName_iff, succeeds_number_iff]
  constructor
  · rintro (⟨hset, hunfit⟩ | ⟨hset, hunknown⟩ | ⟨hnumeric, hset, hunfit⟩)
      ⟨hrules, hpolicy, hnumbers⟩
    · obtain ⟨text, rules, htext, hread, haccepted⟩ := hrules _ hset
      exact hunfit text rules htext hread haccepted
    · obtain ⟨policy, hname⟩ := hpolicy _ hset
      exact hunknown policy hname
    · exact hnumbers _ hnumeric _ hset hunfit
  · intro h
    by_contra hright
    refine h ⟨?_, ?_, ?_⟩
    · intro path hset
      by_contra hnone
      refine hright (.rules hset ?_)
      intro text rules htext hread haccepted
      exact hnone ⟨text, rules, htext, hread, haccepted⟩
    · intro name hset
      by_contra hnone
      exact hright (.policy hset fun policy hname => hnone ⟨policy, hname⟩)
    · intro entry hentry value hset hnone
      exact hright (.number hentry hset hnone)

end Config

/-! ## Wrong arguments -/

namespace Command

variable {d : Disk} {i : Invocation} {path : String}

/-- Arguments that ask for nothing that can be done. -/
inductive Unfit (d : Disk) : List String → Prop
  | usage {arguments : List String} (nonempty : arguments ≠ [])
      (other : ∀ path, arguments ≠ ["record", path]) : Unfit d arguments
  | unreadable {path : String} (noText : ∀ text, d.fileText (.ofText path) ≠ .ok text) :
      Unfit d ["record", path]
  | stray {path text : String} {line : List Char} (read : d.fileText (.ofText path) = .ok text)
      (held : line ∈ text.toList.splitOn '\n') (stray : isStray line = true) :
      Unfit d ["record", path]

theorem succeeds_readEdits_iff : Succeeds (readEdits d path) ↔ ¬ Unfit d ["record", path] := by
  rw [← not_iff_not, not_not]
  unfold readEdits
  cases hread : d.fileText (.ofText path) with
  | error cause => exact iff_of_true (not_succeeds_error _) (.unreadable (by simp [hread]))
  | ok text =>
      dsimp only
      have hstray : ¬ Succeeds (editsOf path 1 (lines text.toList)) ↔
          ∃ line ∈ text.toList.splitOn '\n', isStray line = true := by
        rw [not_succeeds_iff, ← exists_isStray_iff]
        simp only [editsOf_eq_error_iff, exists_and_left, exists_eq, and_true]
      rw [hstray]
      constructor
      · rintro ⟨line, hheld, hstray⟩
        exact .stray hread hheld hstray
      · rintro (⟨-, hother⟩ | hnoText | ⟨hread', hheld, hstray⟩)
        · exact absurd rfl (hother path)
        · exact absurd hread (hnoText text)
        · obtain rfl := Except.ok.inj (hread.symm.trans hread')
          exact ⟨_, hheld, hstray⟩

/-- Arguments ask for nothing, or for a file of edits. -/
theorem requested_cases (d : Disk) (arguments : List String) :
    (arguments = [] ∧ requested d arguments = .ok none) ∨
      (∃ path, arguments = ["record", path] ∧
        requested d arguments = (readEdits d path).map some) ∨
      (arguments ≠ [] ∧ (∀ path, arguments ≠ ["record", path]) ∧
        requested d arguments = .error .usage) := by
  unfold requested
  split
  · exact .inl ⟨rfl, rfl⟩
  · next verb path =>
      split
      · next hverb => exact .inr (.inl ⟨path, by rw [hverb], rfl⟩)
      · next hverb => exact .inr (.inr ⟨by simp, by simp [hverb], rfl⟩)
  · next hempty hpair =>
      exact .inr (.inr ⟨hempty, fun path h => hpair "record" path h, rfl⟩)

theorem succeeds_requested_iff {arguments : List String} :
    Succeeds (requested d arguments) ↔ ¬ Unfit d arguments := by
  obtain ⟨rfl, hrequested⟩ | ⟨path, rfl, hrequested⟩ | ⟨hempty, hother, hrequested⟩ :=
    requested_cases d arguments
  · rw [hrequested]
    exact iff_of_true (succeeds_ok none) (by rintro (⟨hnonempty, -⟩); exact hnonempty rfl)
  · rw [hrequested, succeeds_map_iff, succeeds_readEdits_iff]
  · rw [hrequested]
    exact iff_of_false (not_succeeds_error _) (not_not_intro (.usage hempty hother))

/-! ## Rejected runs -/

/-- A variable or the arguments are wrong, or there are edits to record and a database is
configured. -/
inductive Rejected (d : Disk) (i : Invocation) : Prop
  | configuration (wrong : Config.Wrong d i.environment)
  | arguments (unfit : Unfit d i.arguments)
  | database {path url : String} (asked : i.arguments = ["record", path])
      (set : i.environment .databaseUrl = some url) (nonempty : url ≠ "")

variable {config : Config} {asked : Option (List Edit)}

theorem asked_of_requested {arguments : List String} (h : requested d arguments = .ok asked) :
    (arguments = [] ∧ asked = none) ∨
      ∃ path edits, arguments = ["record", path] ∧ asked = some edits := by
  obtain ⟨rfl, hrequested⟩ | ⟨path, rfl, hrequested⟩ | ⟨-, -, hrequested⟩ :=
    requested_cases d arguments
  · exact .inl ⟨rfl, Except.ok.inj (h.symm.trans hrequested)⟩
  · cases hread : readEdits d path with
    | error e =>
        rw [hread] at hrequested
        cases h.symm.trans hrequested
    | ok edits =>
        rw [hread] at hrequested
        exact .inr ⟨path, edits, rfl, Except.ok.inj (h.symm.trans hrequested)⟩
  · cases h.symm.trans hrequested

/-- Where the variables and the arguments are right, it is the database next to edits that makes a
run rejected. -/
theorem rejected_iff_database (hload : Config.load d i.environment = .ok config)
    (hrequested : requested d i.arguments = .ok asked) :
    Rejected d i ↔ config.databaseUrl.isSome = true ∧ asked.isSome = true := by
  have hright : ¬ Config.Wrong d i.environment := by
    rw [Config.wrong_iff, hload]
    exact not_not_intro (succeeds_ok config)
  have hfit : ¬ Unfit d i.arguments := succeeds_requested_iff.mp ⟨asked, hrequested⟩
  have hurl : config.databaseUrl = (i.environment .databaseUrl).filter (· ≠ "") := by
    obtain ⟨_, _, _, _, _, -, -, -, -, -, rfl⟩ := Config.load_eq_ok_iff.mp hload
    rfl
  rw [hurl]
  obtain ⟨hnone, rfl⟩ | ⟨path, edits, hrecord, rfl⟩ := asked_of_requested hrequested
  · refine iff_of_false ?_ (by simp)
    rintro (hwrong | hunfit | ⟨hrecord, -, -⟩)
    · exact hright hwrong
    · exact hfit hunfit
    · simp [hnone] at hrecord
  · constructor
    · rintro (hwrong | hunfit | ⟨-, hset, hnonempty⟩)
      · exact absurd hwrong hright
      · exact absurd hunfit hfit
      · simp [hset, hnonempty]
    · rintro ⟨hsome, -⟩
      obtain ⟨url, hurl⟩ := Option.isSome_iff_exists.mp hsome
      obtain ⟨hset, hnonempty⟩ := Option.filter_eq_some_iff.mp hurl
      exact .database hrecord hset (of_decide_eq_true hnonempty)

/-- Exactly the rejected runs are prepared in no surroundings. -/
theorem rejected_iff :
    Rejected d i ↔ ∀ around : Surroundings, ¬ Succeeds (prepare d i around) := by
  constructor
  · rintro hrejected around ⟨⟨config, asked⟩, hprepare⟩
    obtain ⟨hload, -, hrequested, hapart⟩ := prepare_eq_ok_iff.mp hprepare
    exact hapart ((rejected_iff_database hload hrequested).mp hrejected)
  · -- Where nothing else is wrong, a run is prepared if every port is free.
    intro hnever
    have hserved : ∀ port, Succeeds (Surroundings.bare.serveMetrics port) := by
      rintro (_ | port) <;> exact succeeds_ok ()
    by_cases hload : Succeeds (Config.load d i.environment)
    · obtain ⟨config, hload⟩ := hload
      by_cases hrequested : Succeeds (requested d i.arguments)
      · obtain ⟨asked, hrequested⟩ := hrequested
        rw [rejected_iff_database hload hrequested]
        by_contra hapart
        exact hnever .bare
          ⟨_, prepare_eq_ok_iff.mpr ⟨hload, hserved _, hrequested, hapart⟩⟩
      · rw [succeeds_requested_iff, not_not] at hrequested
        exact .arguments hrequested
    · exact .configuration (Config.wrong_iff.mpr hload)

end Command

theorem CommandError.exitCode_ne_zero (e : CommandError) : e.exitCode ≠ 0 := by
  unfold exitCode
  split <;> decide

namespace Command

variable {d : Disk} {i : Invocation}

/-- A rejected run prints no report and does not exit with zero.  Its disk is the one that it found,
so no place is written, removed or made. -/
theorem Rejected.leaves_no_trace (h : Rejected d i) (around : Surroundings) :
    (run d i around).output = none ∧ (run d i around).exitCode ≠ 0 ∧
      (run d i around).disk = d ∧
      ∀ l, d.difference? (run d i around).disk l = none := by
  obtain ⟨e, hprepare⟩ := not_succeeds_iff.mp (rejected_iff.mp h around)
  have hrun : run d i around = ⟨d, .error e⟩ := by
    unfold run
    rw [hprepare]
  rw [hrun]
  exact ⟨rfl, e.exitCode_ne_zero, rfl, fun l => Disk.difference?_eq_none_iff.mpr rfl⟩

/-- Two edits and a line that is none, for a journal that ends in a torn frame and that any record
would compact: it keeps every byte. -/
theorem leaves_no_trace_last_line :
    let text :=
      "\x7b\"ShiftRemoved\":\x7b\"id\":\"00000000000000000000000000000006\"\x7d\x7d\n\n" ++
      "\x7b\"MemberRemoved\":\x7b\"id\":\"00000000000000000000000000000007\"\x7d\x7d\n\x7b\x7d"
    let held := Frame.ofEdits [.shiftAdded ⟨.ofNat 6, .ofNat 7, 2, 480, 720⟩] ++ [40, 0, 0, 0, 7]
    let d : Disk := ⟨[(#["rota.journal"], .file held), (#["edits"], .file (Bytes.ofText text))]⟩
    let i : Invocation := ⟨["record", "edits"], fun
      | .journal => some "rota.journal" | .threshold => some "0" | _ => none⟩
    (∀ line ∈ ((text.toList.splitOn '\n').take 3), isStray line = false) ∧
      (run d i .bare).output = none ∧ (run d i .bare).exitCode ≠ 0 ∧
        (run d i .bare).disk.content #["rota.journal"] = held := by
  intro text held d i
  have hgood : ∀ line ∈ ((text.toList.splitOn '\n').take 3), isStray line = false := by
    decide +kernel
  have hread : d.fileText (.ofText "edits") = .ok text := by decide +kernel
  have hline : "\x7b\x7d".toList ∈ text.toList.splitOn '\n' := by decide +kernel
  have hstray : isStray "\x7b\x7d".toList = true := by decide +kernel
  have hrejected : Rejected d i := .arguments (.stray hread hline hstray)
  obtain ⟨houtput, hcode, hdisk, -⟩ := hrejected.leaves_no_trace .bare
  refine ⟨hgood, houtput, hcode, ?_⟩
  rw [hdisk]
  rfl

end Command

end NurseryRota
