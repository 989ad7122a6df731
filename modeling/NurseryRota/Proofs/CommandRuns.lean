import NurseryRota.Proofs.EditFiles
import NurseryRota.Proofs.ReportRange
import NurseryRota.Proofs.StoreRuns
import NurseryRota.Proofs.TableViews
import NurseryRota.Proofs.WeekByDay

/-!
# The runs of the command as one history

A run of the command leaves nothing behind but its disk.  Still, runs that find the journal as the
run before left it work on one rota: that of the edits which the journal held at first and of
those recorded since, in order.  How often the journal was compacted in between, and with what
thresholds, is not to be seen; and a run that is refused for the size of the rota has recorded its
edits all the same.  Only a run whose metrics cannot be served breaks off before that, and leaves the
history as it was, as a run on a database does.
-/

namespace NurseryRota

/-! ## The configuration of a run -/

theorem Rules.parse_eq_ok_iff {text : String} {rules : Rules} :
    parse text = .ok rules ↔ RulesDocument.read text.toList = .ok rules ∧ rules.Accepted := by
  unfold parse
  rw [bind_eq_ok_iff]
  simp only [← outOfRange?_eq_none_iff]
  constructor
  · rintro ⟨found, hread, hfound⟩
    cases hrange : found.outOfRange? with
    | some cause =>
        rw [hrange] at hfound
        cases hfound
    | none =>
        rw [hrange] at hfound
        cases hfound
        exact ⟨hread, hrange⟩
  · rintro ⟨hread, hrange⟩
    refine ⟨rules, hread, ?_⟩
    rw [hrange]
    rfl

theorem Rules.accepted_of_parse {text : String} {rules : Rules} (h : parse text = .ok rules) :
    rules.Accepted :=
  (parse_eq_ok_iff.mp h).2

namespace Config

variable {d : Disk} {env : Environment}

theorem accepted_of_rulesOf {rules : Rules} (h : rulesOf d env = .ok rules) : rules.Accepted := by
  unfold rulesOf at h
  cases hpath : env .rules with
  | none =>
      rw [hpath] at h
      cases h
      exact Rules.accepted_standard
  | some path =>
      rw [hpath] at h
      dsimp only [loadRules] at h
      cases htext : d.fileText (.ofText path) with
      | error cause =>
          rw [htext] at h
          cases h
      | ok text =>
          rw [htext] at h
          dsimp only at h
          cases hparse : Rules.parse text with
          | error fault =>
              rw [hparse] at h
              cases h
          | ok found =>
              rw [hparse] at h
              cases h
              exact Rules.accepted_of_parse hparse

/-- A configuration is loaded exactly if each part of it is. -/
theorem load_eq_ok_iff {config : Config} : load d env = .ok config ↔
    ∃ rules policy metricsPort maxShifts threshold, rulesOf d env = .ok rules ∧
      policyOf env = .ok policy ∧ number env .metricsPort 16 = .ok metricsPort ∧
      number env .maxShifts 64 = .ok maxShifts ∧ number env .threshold 64 = .ok threshold ∧
      config = ⟨(env .databaseUrl).filter (· ≠ ""), (env .journal).getD standardJournalPath, rules,
        policy, metricsPort, maxShifts.getD standardMaxShifts,
        threshold.getD standardThreshold⟩ := by
  unfold load
  constructor
  · intro h
    obtain ⟨rules, hrules, h⟩ := bind_eq_ok_iff.mp h
    obtain ⟨policy, hpolicy, h⟩ := bind_eq_ok_iff.mp h
    obtain ⟨metricsPort, hport, h⟩ := bind_eq_ok_iff.mp h
    obtain ⟨maxShifts, hshifts, h⟩ := bind_eq_ok_iff.mp h
    obtain ⟨threshold, hthreshold, h⟩ := bind_eq_ok_iff.mp h
    exact ⟨rules, policy, metricsPort, maxShifts, threshold, hrules, hpolicy, hport, hshifts,
      hthreshold, (Except.ok.inj h).symm⟩
  · rintro ⟨rules, policy, metricsPort, maxShifts, threshold, hrules, hpolicy, hport, hshifts,
      hthreshold, rfl⟩
    rw [hrules, hpolicy, hport, hshifts, hthreshold]
    rfl

theorem accepted_of_load {config : Config} (h : load d env = .ok config) :
    config.rules.Accepted := by
  obtain ⟨rules, _, _, _, _, hrules, -, -, -, -, rfl⟩ := load_eq_ok_iff.mp h
  exact accepted_of_rulesOf hrules

end Config

/-! ## The edits of a run -/

namespace Command

/-- Arguments that ask for validation alone, or to record first the edits of a file whose lines
are edits or blank. -/
inductive Asks (d : Disk) : List String → List Edit → Prop
  | validation : Asks d [] []
  | recording {path text : String} {edits : List Edit} (file : d.fileText (.ofText path) = .ok text)
      (parsed : parseLines (text.toList.splitOn '\n') = some edits) :
      Asks d ["record", path] edits

theorem Asks.requested {d : Disk} {arguments : List String} {edits : List Edit}
    (h : Asks d arguments edits) :
    ∃ asked, requested d arguments = .ok asked ∧ asked.getD [] = edits := by
  cases h with
  | validation => exact ⟨none, rfl, rfl⟩
  | @recording path text edits file parsed =>
      refine ⟨some edits, ?_, rfl⟩
      have hread : readEdits d path = .ok edits := by
        unfold readEdits
        rw [file]
        exact editsOf_lines_eq_ok_iff.mpr parsed
      unfold Command.requested
      dsimp only
      rw [if_pos rfl, hread]
      rfl

end Command

/-! ## One run -/

theorem Surroundings.eq_exporter_of_serveMetrics {around : Surroundings} {port : Option Nat}
    {e : CommandError} (h : around.serveMetrics port = .error e) :
    ∃ cause, e = .exporter cause := by
  cases port with
  | none => cases h
  | some port =>
      change (around.serve port).mapError .exporter = .error e at h
      cases hserve : around.serve port with
      | ok started =>
          rw [hserve] at h
          cases h
      | error cause =>
          rw [hserve] at h
          cases h
          exact ⟨cause, rfl⟩

/-- A run is prepared once its configuration is loaded, its metrics are served and its arguments are
in order, unless it is to record edits while a database is configured. -/
theorem Command.prepare_eq_ok_iff {d : Disk} {i : Invocation} {around : Surroundings}
    {config : Config} {asked : Option (List Edit)} :
    prepare d i around = .ok (config, asked) ↔
      Config.load d i.environment = .ok config ∧ Succeeds (around.serveMetrics config.metricsPort) ∧
        requested d i.arguments = .ok asked ∧
        ¬ (config.databaseUrl.isSome = true ∧ asked.isSome = true) := by
  simp only [prepare, bind_eq_ok_iff, mapError_eq_ok_iff, ← Bool.and_eq_true]
  constructor
  · rintro ⟨config, hload, started, hserve, asked, hrequested, hprepared⟩
    split at hprepared
    · cases hprepared
    · next hapart =>
        cases hprepared
        exact ⟨hload, ⟨started, hserve⟩, hrequested, hapart⟩
  · rintro ⟨hload, ⟨started, hserve⟩, hrequested, hapart⟩
    refine ⟨config, hload, started, hserve, asked, hrequested, ?_⟩
    rw [if_neg hapart]
    rfl

/-- A run on a database touches no journal, whatever the port and the database answer. -/
theorem Command.disk_run_of_database {d : Disk} {i : Invocation} {around : Surroundings}
    {config : Config} {url : String} (hload : Config.load d i.environment = .ok config)
    (hurl : config.databaseUrl = some url) : (run d i around).disk = d := by
  unfold run
  cases hprepare : prepare d i around with
  | error e => rfl
  | ok prepared =>
      obtain ⟨found, asked⟩ := prepared
      obtain rfl := Except.ok.inj (hload.symm.trans (prepare_eq_ok_iff.mp hprepare).1)
      dsimp only
      rw [hurl]

/-- The disk holds, at a path, a journal of what the edits build. -/
def Disk.HoldsRota (d : Disk) (p : Path) (edits : List Edit) : Prop :=
  ∃ held, d.Admits p held ∧
    Rota.ofHistory (Recovery.ofBytes (held.getD [])).edits = Rota.ofHistory edits

theorem Journal.Attached.admits {d : Disk} {j : Journal} {content : Bytes}
    (h : j.Attached d content) : d.Admits j.path (some content) where
  text := h.text
  ending := h.ending
  way := by rw [h.way]
  place := by
    rw [h.way]
    exact ⟨j.location, h.located, h.file⟩

namespace Session.InStep

variable {p : Path} {s : Session} {edits : List Edit}

theorem holdsRota (h : InStep p s edits) : s.disk.HoldsRota p edits := by
  obtain ⟨content, es, ⟨j, hjournal, hpath, hattached⟩, hintact, hes⟩ := h.file
  refine ⟨some content, hpath ▸ hattached.admits, ?_⟩
  rw [Option.getD_some, hintact.edits_eq, hes, h.rota]

theorem withThreshold (h : InStep p s edits) (threshold : Nat) :
    InStep p ⟨s.disk, s.store.withThreshold threshold⟩ edits where
  rota := h.rota
  file := h.file

end Session.InStep

/-- The run answers for a rota: unless the rota has more bookings than the configuration allows,
the run prints the report on it so that it can be read back, and exits with zero if and only if
nothing is reported. -/
structure Run.Answers (run : Run) (config : Config) (r : Rota) : Prop where
  refused : config.maxShifts < r.shiftCount → run.output = none ∧ run.exitCode = 2
  reported : r.shiftCount ≤ config.maxShifts → ∀ report,
    (r.view .all).shifts.validate r.roster config.rules config.policy = .ok report →
      run.output = some (report.text ++ "\n") ∧
        Report.ofText? (report.text ++ "\n") = some report ∧
        run.exitCode = if report.findings = [] ∧ report.rejected = [] then 0 else 1
  faultless : r.shiftCount < capacity 32 →
    Succeeds ((r.view .all).shifts.validate r.roster config.rules config.policy)

/-- What a run prints is read as the report. -/
theorem Report.ofText?_output {report : Report} (h : report.InRange) :
    ofText? (report.text ++ "\n") = some report := by
  have hend : Json.Blanks ['\n'] := by simp [Json.Blanks, Json.isBlank]
  have hread := ofText?_of_denotes h (report.denotes_text.append hend)
  rwa [String.ofList_append, String.ofList_toList] at hread

theorem Run.exitCode_of_report (d : Disk) (report : Report) : (Run.mk d (.ok report)).exitCode =
    if report.findings = [] ∧ report.rejected = [] then 0 else 1 := by
  simp only [exitCode, Report.isClean_iff]

namespace Command

variable {d : Disk} {config : Config} {r : Rota} {edits : List Edit}

theorem answers_validate (hkeyed : r.shifts.Keyed) (hrules : config.rules.Accepted) (d : Disk) :
    Run.Answers ⟨d, validate config r.source⟩ config r := by
  have hsize : (r.view .all).shifts.size = r.shiftCount := Rota.size_view_all r
  have hdistinct : (r.view .all).shifts.Distinct := hkeyed.distinct
  have houtcome : (config.engine.validateByDay r.source .empty).1 =
      if config.maxShifts < r.shiftCount then .error .limitExceeded
      else config.engine.checkByDay (r.view .all) := by
    rw [← hsize]
    exact Validator.outcome_validateByDay rfl .empty
  constructor
  · intro hlimit
    rw [if_pos hlimit] at houtcome
    have hresult : validate config r.source = .error (.pass .limitExceeded) := by
      unfold validate
      rw [houtcome]
      rfl
    rw [hresult]
    exact ⟨rfl, rfl⟩
  · intro hlimit report hreport
    rw [if_neg (by omega)] at houtcome
    have hcheck : config.engine.checkByDay (r.view .all) = .ok report :=
      (Validator.checkByDay_eq_ok_iff hdistinct).mpr (Validator.check_eq_ok_iff.mpr hreport)
    have hresult : validate config r.source = .ok report := by
      unfold validate
      rw [houtcome, hcheck]
      rfl
    rw [hresult]
    exact ⟨rfl, Report.ofText?_output (Snapshot.inRange_of_validate hreport),
      Run.exitCode_of_report d report⟩
  · intro hcount
    exact ⟨_, Snapshot.validate_eq_ok
      (Snapshot.checkable_of_accepted hrules config.policy (by omega))⟩

/-- A run on a disk that holds a rota works on that rota and the edits it records. -/
theorem execute_eq {p : Path} (h : d.HoldsRota p edits) (hpath : Path.ofText config.journalPath = p)
    (asked : Option (List Edit)) :
    ∃ session,
      execute d config asked = ⟨session.disk, validate config session.store.rota.source⟩ ∧
      Session.InStep p session (edits ++ asked.getD []) := by
  obtain ⟨held, hadmits, hheld⟩ := h
  obtain ⟨d', s, content, hopen, hrota, hbacked, hintact⟩ := Store.ofJournal_of_admits hadmits
  have hopened : Session.InStep p ⟨d', s⟩ edits :=
    ⟨hrota.trans hheld, content, _, hbacked, hintact, hrota.symm⟩
  have hready := hopened.withThreshold config.threshold
  unfold execute
  rw [hpath, hopen]
  dsimp only
  cases asked with
  | none => exact ⟨_, rfl, by simpa using hready⟩
  | some batch =>
      obtain ⟨hanswer, hrecorded⟩ := hready.step (c := .record batch .complete) rfl
      have hnone : ((s.withThreshold config.threshold).record d' batch .complete).failure = none :=
        hanswer
      dsimp only
      rw [hnone]
      exact ⟨_, rfl, hrecorded⟩

end Command

/-! ## Runs one after another -/

/-- Whatever journal the one disk holds at the path, the other holds too. -/
def Disk.Spares (d d' : Disk) (p : Path) : Prop := ∀ held, d.Admits p held → d'.Admits p held

theorem Disk.Spares.refl (d : Disk) (p : Path) : d.Spares d p := fun _ h => h

theorem Disk.HoldsRota.spared {d d' : Disk} {p : Path} {edits : List Edit}
    (h : d.HoldsRota p edits) (hspares : d.Spares d' p) : d'.HoldsRota p edits := by
  obtain ⟨held, hadmits, hheld⟩ := h
  exact ⟨held, hspares held hadmits, hheld⟩

/-- A run, with the disk and the surroundings that it finds, the configuration that it reads and the
edits that it is asked to record. -/
structure Visit where
  found : Disk
  around : Surroundings
  invocation : Invocation
  config : Config
  edits : List Edit

namespace Visit

def run (v : Visit) : Run := Command.run v.found v.invocation v.around

/-- The configuration is accepted, and names the journal and no database; the arguments are in
order. -/
structure Accepted (v : Visit) (p : Path) : Prop where
  config : Config.load v.found v.invocation.environment = .ok v.config
  journal : Path.ofText v.config.journalPath = p
  database : v.config.databaseUrl = none
  asks : Command.Asks v.found v.invocation.arguments v.edits

/-- The metrics can be served at the configured port, or no port is configured. -/
def Served (v : Visit) : Prop := Succeeds (v.around.serveMetrics v.config.metricsPort)

instance (v : Visit) : Decidable v.Served := inferInstanceAs (Decidable (Succeeds _))

/-- The edits that the run records: those that it is asked to, once the metrics are served. -/
def recorded (v : Visit) : List Edit := if v.Served then v.edits else []

variable {v : Visit} {p : Path} {edits : List Edit}

theorem Accepted.run_eq (h : v.Accepted p) (hserved : v.Served) :
    ∃ asked, v.run = Command.execute v.found v.config asked ∧ asked.getD [] = v.edits := by
  obtain ⟨asked, hrequested, hasked⟩ := h.asks.requested
  refine ⟨asked, ?_, hasked⟩
  have hprepare : Command.prepare v.found v.invocation v.around = .ok (v.config, asked) :=
    Command.prepare_eq_ok_iff.mpr ⟨h.config, hserved, hrequested, by simp [h.database]⟩
  unfold run Command.run
  rw [hprepare]
  dsimp only
  rw [h.database]

/-- A run whose metrics cannot be served breaks off. -/
theorem Accepted.run_of_not_served (h : v.Accepted p) (hserved : ¬ v.Served) :
    v.run.output = none ∧ v.run.exitCode = 1 ∧ v.run.disk = v.found := by
  obtain ⟨e, hserve⟩ := not_succeeds_iff.mp hserved
  have hprepare : Command.prepare v.found v.invocation v.around = .error e := by
    unfold Command.prepare
    rw [h.config]
    dsimp only [Except.mapError, bind, Except.bind]
    rw [hserve]
  obtain ⟨cause, rfl⟩ := Surroundings.eq_exporter_of_serveMetrics hserve
  unfold run Command.run
  rw [hprepare]
  exact ⟨rfl, rfl, rfl⟩

/-- A run whose metrics are served answers for the rota that it finds and the edits that it records,
and leaves a journal of them behind. -/
theorem Accepted.answers (h : v.Accepted p) (hserved : v.Served)
    (hfound : v.found.HoldsRota p edits) :
    v.run.Answers v.config (Rota.ofHistory (edits ++ v.edits)) ∧
      v.run.disk.HoldsRota p (edits ++ v.edits) := by
  obtain ⟨asked, hrun, hasked⟩ := h.run_eq hserved
  obtain ⟨session, hexecute, hsession⟩ := Command.execute_eq hfound h.journal asked
  rw [hasked] at hsession
  rw [hrun, hexecute, hsession.rota]
  exact ⟨Command.answers_validate (Rota.keyed_ofHistory _) (Config.accepted_of_load h.config)
    session.disk, hsession.holdsRota⟩

theorem Accepted.leaves (h : v.Accepted p) (hfound : v.found.HoldsRota p edits) :
    v.run.disk.HoldsRota p (edits ++ v.recorded) := by
  unfold recorded
  by_cases hserved : v.Served
  · rw [if_pos hserved]
    exact (h.answers hserved hfound).2
  · rw [if_neg hserved, List.append_nil, (h.run_of_not_served hserved).2.2]
    exact hfound

end Visit

/-- Runs of which each finds the journal as the one before left it, and the first as the disk has
it. -/
inductive Visits (p : Path) : Disk → List Visit → Prop
  | nil (d : Disk) : Visits p d []
  | cons {d : Disk} {v : Visit} {later : List Visit} (spared : d.Spares v.found p)
      (accepted : v.Accepted p) (rest : Visits p v.run.disk later) : Visits p d (v :: later)

namespace Visits

variable {p : Path} {d : Disk} {edits : List Edit} {before later : List Visit}

/-- After some runs the disk holds the rota of all edits that they recorded. -/
theorem holdsRota (hvisits : Visits p d (before ++ later)) (hd : d.HoldsRota p edits) :
    ∃ d', Visits p d' later ∧ d'.HoldsRota p (edits ++ before.flatMap Visit.recorded) := by
  induction before generalizing d edits with
  | nil => exact ⟨d, hvisits, by simpa using hd⟩
  | cons v before ih =>
      cases hvisits with
      | cons spared accepted rest =>
          obtain ⟨d', hlater, hholds⟩ := ih rest (accepted.leaves (hd.spared spared))
          refine ⟨d', hlater, ?_⟩
          rw [List.flatMap_cons, ← List.append_assoc]
          exact hholds

/-- Each of a sequence of runs answers for the rota of the edits that the journal held at first and
of those recorded up to and by the run, and opening the journal after it gives this rota, whether
the run was refused for the size of the rota or not.  A run whose metrics cannot be served breaks off
instead and records nothing. -/
theorem one_history {held : Option Bytes} (hadmits : d.Admits p held) {v : Visit}
    (hvisits : Visits p d (before ++ v :: later)) :
    let r := Rota.ofHistory
      ((Recovery.ofBytes (held.getD [])).edits ++ before.flatMap Visit.recorded ++ v.recorded)
    (v.Served → v.run.Answers v.config r) ∧
      (¬ v.Served → v.run.output = none ∧ v.run.exitCode = 1 ∧ v.run.disk = v.found) ∧
      ∃ d' s, Store.ofJournal v.run.disk p = (d', .ok s) ∧ s.rota = r := by
  intro r
  obtain ⟨d', hlater, hholds⟩ := hvisits.holdsRota ⟨held, hadmits, rfl⟩
  cases hlater with
  | cons spared accepted rest =>
      have hfound := hholds.spared spared
      refine ⟨?_, ?_, ?_⟩
      · intro hserved
        have hrecorded : v.recorded = v.edits := if_pos hserved
        have hanswers := (accepted.answers hserved hfound).1
        rw [← hrecorded] at hanswers
        exact hanswers
      · exact accepted.run_of_not_served
      · obtain ⟨left, hleftAdmits, hleft⟩ := accepted.leaves hfound
        obtain ⟨reopened, s, content, hopen, hrota, -, -⟩ := Store.ofJournal_of_admits hleftAdmits
        exact ⟨reopened, s, hopen, hrota.trans hleft⟩

/-- On a journal of two bookings and a torn frame, a run whose port is taken leaves everything as it
is.  A run that may take no booking then removes one with a threshold of zero, and is refused; the
next run reports on the other. -/
theorem one_history_refused_run :
    let text := "\n\x7b\"ShiftRemoved\":\x7b\"id\":\"00000000000000000000000000000006\"\x7d\x7d"
    let bookings : List Edit := [.shiftAdded ⟨.ofNat 5, .ofNat 7, 2, 480, 720⟩,
      .shiftAdded ⟨.ofNat 6, .ofNat 7, 2, 600, 720⟩]
    let held := Frame.ofEdits bookings ++ [40, 0, 0, 0, 7]
    let d : Disk := ⟨[(#["rota.journal"], .file held), (#["edits"], .file (Bytes.ofText text))]⟩
    let blocked : Visit := ⟨d, { Surroundings.bare with serve _ := .error "address in use" },
      ⟨["record", "edits"], fun
        | .journal => some "rota.journal" | .metricsPort => some "9000" | _ => none⟩,
      ⟨none, "rota.journal", .standard, .perBand, some 9000, 200000, 1000⟩,
      [.shiftRemoved (.ofNat 6)]⟩
    let recording : Visit := ⟨blocked.run.disk, .bare, ⟨["record", "edits"], fun
        | .journal => some "rota.journal" | .metricsPort => some "9000" | .maxShifts => some " 0"
        | .threshold => some "0" | _ => none⟩,
      ⟨none, "rota.journal", .standard, .perBand, some 9000, 0, 0⟩, [.shiftRemoved (.ofNat 6)]⟩
    let validating : Visit := ⟨recording.run.disk, .bare, ⟨[], fun
        | .journal => some "rota.journal" | _ => none⟩,
      ⟨none, "rota.journal", .standard, .perBand, none, 200000, 1000⟩, []⟩
    let r := Rota.ofHistory (bookings ++ [.shiftRemoved (.ofNat 6)])
    blocked.run.exitCode = 1 ∧ blocked.run.disk = d ∧
      recording.run.output = none ∧ recording.run.exitCode = 2 ∧
        ∃ report, (r.view .all).shifts.validate r.roster .standard .perBand = .ok report ∧
          validating.run.output = some (report.text ++ "\n") ∧
          Report.ofText? (report.text ++ "\n") = some report := by
  intro text bookings held d blocked recording validating r
  let p : Path := .ofText "rota.journal"
  have hadmits : d.Admits p (some held) := by
    refine ⟨⟨_, rfl⟩, ?_, ?_, #["rota.journal"], ?_, ?_⟩ <;> decide +kernel
  have htext : d.fileText (.ofText "edits") = .ok text := by decide +kernel
  have hparsed : Command.parseLines (text.toList.splitOn '\n') =
      some [.shiftRemoved (.ofNat 6)] := by decide +kernel
  have hunserved : ¬ blocked.Served := by decide
  have hblocked : blocked.Accepted p := ⟨rfl, rfl, rfl, .recording htext hparsed⟩
  have hsame : blocked.run.disk = d := (hblocked.run_of_not_served hunserved).2.2
  have htextAgain : blocked.run.disk.fileText (.ofText "edits") = .ok text := by rw [hsame, htext]
  have hrecording : recording.Accepted p := ⟨rfl, rfl, rfl, .recording htextAgain hparsed⟩
  have hvalidating : validating.Accepted p := ⟨rfl, rfl, rfl, .validation⟩
  have hvisits : Visits p d ([] ++ blocked :: [recording, validating]) :=
    .cons (.refl d _) hblocked (.cons (.refl blocked.run.disk _) hrecording
      (.cons (.refl recording.run.disk _) hvalidating (.nil _)))
  have hsecond : Visits p d ([blocked] ++ recording :: [validating]) := hvisits
  have hthird : Visits p d ([blocked, recording] ++ validating :: []) := hvisits
  have hedits : (Recovery.ofBytes held).edits = bookings := by decide +kernel
  have hcount : r.shiftCount = 1 := by decide +kernel
  obtain ⟨-, hcode, hdisk⟩ := (one_history hadmits hvisits).2.1 hunserved
  have hrefused : Run.Answers recording.run recording.config r := by
    have h := (one_history hadmits hsecond).1 (by decide)
    rw [Option.getD_some, hedits] at h
    exact h
  have hanswered : Run.Answers validating.run validating.config r := by
    have h := (one_history hadmits hthird).1 (by decide)
    rw [Option.getD_some, hedits] at h
    exact h
  obtain ⟨hnone, hrefusal⟩ := hrefused.refused (by rw [hcount]; exact Nat.one_pos)
  obtain ⟨report, hreport⟩ := hanswered.faultless (by rw [hcount]; decide)
  obtain ⟨hprinted, hread, -⟩ := hanswered.reported (by rw [hcount]; decide) report hreport
  exact ⟨hcode, hdisk, hnone, hrefusal, report, hreport, hprinted, hread⟩

end Visits

end NurseryRota
