import NurseryRota.Proofs.JsonGrammar
import NurseryRota.Proofs.RejectedRuns

/-!
# What the variables say

Rules for the texts of variables say what each of them denotes.  The loaded configuration has in every
field what its own variable denotes, and the default of the field only where the variable is not set.
No text is passed over: one that denotes nothing is complained about, and of several such texts the
first one, in the order in which the variables are looked at.
-/

namespace NurseryRota

theorem Disk.fileText_eq_ok_iff {d : Disk} {p : Path} {text : String} :
    d.fileText p = .ok text ↔ d.fileBytes p = .ok (Bytes.ofText text) := by
  unfold fileText
  cases d.fileBytes p with
  | error cause => simp
  | ok bytes =>
      dsimp only
      rw [Except.ok.injEq, ← Bytes.text?_eq_some_iff]
      cases Bytes.text? bytes <;> simp

/-! ## Numbers -/

namespace Blank

variable {before core after blanks cs : List Char}

theorem dropWhile_append (hblanks : ∀ c ∈ blanks, contains c = true)
    (hcs : ∀ c ∈ cs.head?, contains c = false) : (blanks ++ cs).dropWhile contains = cs := by
  rw [List.dropWhile_append_of_pos hblanks]
  cases cs with
  | nil => rfl
  | cons c cs => simp [hcs c rfl]

/-- What is left of a text without the blanks around it. -/
theorem trim_append (hbefore : ∀ c ∈ before, contains c = true)
    (hafter : ∀ c ∈ after, contains c = true) (hne : core ≠ [])
    (hcore : ∀ c ∈ core, contains c = false) : trim (before ++ core ++ after) = core := by
  have hfirst : ∀ c ∈ (core ++ after).head?, contains c = false := by
    rw [List.head?_append_of_ne_nil _ hne]
    exact fun c hc => hcore c (List.mem_of_mem_head? hc)
  have hlast : ∀ c ∈ core.reverse.head?, contains c = false := fun c hc =>
    hcore c (List.mem_reverse.mp (List.mem_of_mem_head? hc))
  have hclosing : ∀ c ∈ after.reverse, contains c = true := fun c hc =>
    hafter c (List.mem_reverse.mp hc)
  unfold trim
  rw [List.append_assoc, dropWhile_append hbefore hfirst, List.reverse_append,
    dropWhile_append hclosing hlast, List.reverse_reverse]

theorem exists_trim (cs : List Char) : ∃ before after, (∀ c ∈ before, contains c = true) ∧
    (∀ c ∈ after, contains c = true) ∧ cs = before ++ trim cs ++ after := by
  let front := cs.dropWhile contains
  have hback : front = trim cs ++ (front.reverse.takeWhile contains).reverse := by
    rw [trim, ← List.reverse_append, List.takeWhile_append_dropWhile, List.reverse_reverse]
  refine ⟨cs.takeWhile contains, (front.reverse.takeWhile contains).reverse,
    fun _ hc => List.mem_takeWhile_imp hc,
    fun _ hc => List.mem_takeWhile_imp (List.mem_reverse.mp hc), ?_⟩
  rw [List.append_assoc, ← hback]
  exact List.takeWhile_append_dropWhile.symm

theorem contains_eq_false_of_isDigit {c : Char} (h : c.isDigit = true) : contains c = false := by
  have hrange : 48 ≤ c.toNat ∧ c.toNat ≤ 57 := Char.isDigit_iff_toNat.mp h
  simp only [contains, ranges, List.any_cons, List.any_nil, Bool.or_false, Bool.or_eq_false_iff,
    Bool.and_eq_false_iff, decide_eq_false_iff_not]
  omega

end Blank

namespace Config

/-- A text says a number of so many bits in decimal digits, of which there is at least one, with a plus
sign in front or without, and with blanks around them or without. -/
inductive SaysNumber (bits : Nat) : List Char → Nat → Prop
  | mk {before sign digits after : List Char} (opening : ∀ c ∈ before, Blank.contains c = true)
      (signed : sign = [] ∨ sign = ['+']) (decimal : Json.Digits digits)
      (closing : ∀ c ∈ after, Blank.contains c = true)
      (fits : Nat.ofDigitChars 10 digits 0 < 2 ^ bits) :
      SaysNumber bits (before ++ (sign ++ digits) ++ after) (Nat.ofDigitChars 10 digits 0)

variable {bits n : Nat} {cs : List Char}

theorem number?_eq_some_iff : number? bits cs = some n ↔
    ∃ sign digits, cs = sign ++ digits ∧ (sign = [] ∨ sign = ['+']) ∧ Json.Digits digits ∧
      ofDecimal digits = n ∧ n < capacity bits := by
  have hdigits : ∀ ds : List Char, (if ds ≠ [] && ds.all Char.isDigit && ofDecimal ds < capacity bits
      then some (ofDecimal ds) else none) = some n ↔
        Json.Digits ds ∧ ofDecimal ds = n ∧ n < capacity bits := by
    intro ds
    simp only [Option.ite_none_right_eq_some, Option.some.injEq, Bool.and_eq_true,
      decide_eq_true_eq, List.all_eq_true, Json.Digits]
    constructor
    · rintro ⟨⟨hspelled, hfits⟩, rfl⟩
      exact ⟨hspelled, rfl, hfits⟩
    · rintro ⟨hspelled, rfl, hfits⟩
      exact ⟨⟨hspelled, hfits⟩, rfl⟩
  unfold number?
  dsimp only
  rw [hdigits]
  by_cases hplus : cs.head? = some '+'
  · obtain ⟨digits, rfl⟩ := List.head?_eq_some_iff.mp hplus
    rw [if_pos hplus]
    constructor
    · intro h
      exact ⟨['+'], digits, rfl, Or.inr rfl, h⟩
    · rintro ⟨sign, ds, hcs, rfl | rfl, h⟩
      · -- The plus sign would have to be a digit.
        have hbad := h.1.2 '+' (by rw [← List.nil_append ds, ← hcs]; simp)
        cases hbad
      · obtain ⟨-, rfl⟩ := List.cons.inj hcs
        exact h
  · rw [if_neg hplus]
    constructor
    · intro h
      exact ⟨[], cs, rfl, Or.inl rfl, h⟩
    · rintro ⟨sign, ds, rfl, rfl | rfl, h⟩
      · exact h
      · exact absurd rfl hplus

/-- The texts that are read as a number are those that say it. -/
theorem number?_trim_eq_some_iff : number? bits (Blank.trim cs) = some n ↔ SaysNumber bits cs n := by
  rw [number?_eq_some_iff]
  constructor
  · rintro ⟨sign, digits, htrim, hsign, hdigits, rfl, hfits⟩
    obtain ⟨before, after, hbefore, hafter, hcs⟩ := Blank.exists_trim cs
    rw [ofDecimal_eq_ofDigitChars] at hfits ⊢
    rw [hcs, htrim]
    exact .mk hbefore hsign hdigits hafter hfits
  · rintro ⟨opening, signed, decimal, closing, fits⟩
    refine ⟨_, _, Blank.trim_append opening closing ?_ ?_, signed, decimal,
      ofDecimal_eq_ofDigitChars _, fits⟩
    · exact List.append_ne_nil_of_right_ne_nil _ decimal.1
    · intro c hc
      rcases List.mem_append.mp hc with hc | hc
      · rcases signed with rfl | rfl
        · cases hc
        · rw [List.mem_singleton.mp hc]
          rfl
      · exact Blank.contains_eq_false_of_isDigit (decimal.2 c hc)

/-! ## Variables -/

/-- The value that a variable gives: what its text denotes, and the default only if it is not set. -/
inductive Settled {α : Type} (denotes : String → α → Prop) (default : α) : Option String → α → Prop
  | unset : Settled denotes default none default
  | set {text : String} {a : α} (denoted : denotes text a) : Settled denotes default (some text) a

/-- The file at the path is the UTF-8 of a text that is read as the rules. -/
def HoldsRules (d : Disk) (path : String) (rules : Rules) : Prop :=
  ∃ text, d.fileBytes (.ofText path) = .ok (Bytes.ofText text) ∧ Rules.parse text = .ok rules

inductive NamesPolicy : String → Policy → Prop
  | perBand : NamesPolicy "per_band" .perBand
  | pooled : NamesPolicy "pooled" .pooled

/-- The complaint about the text of a variable that denotes nothing. -/
inductive Complains (d : Disk) : Setting → String → ConfigError → Prop
  | unreadable {path : String} {cause : DiskError} (file : d.fileText (.ofText path) = .error cause) :
      Complains d .rules path (.unreadable path cause)
  | invalidRules {path text : String} {fault : RulesFault}
      (file : d.fileBytes (.ofText path) = .ok (Bytes.ofText text))
      (refused : Rules.parse text = .error fault) : Complains d .rules path (.invalidRules fault)
  | invalidPolicy {name : String} (unknown : ∀ policy, ¬ NamesPolicy name policy) :
      Complains d .policy name (.invalidPolicy name)
  | invalidValue {setting : Setting} {bits : Nat} {value : String}
      (numeric : (setting, bits) ∈ numbers) (unfit : ∀ n, ¬ SaysNumber bits value.toList n) :
      Complains d setting value (.invalidValue setting value)

variable {α : Type} {d : Disk} {env : Environment} {e : ConfigError}

theorem elim_eq_ok_iff {denotes : String → α → Prop} {read : String → Except ConfigError α}
    (hread : ∀ text a, read text = .ok a ↔ denotes text a) {default a : α} {value : Option String} :
    value.elim (.ok default) read = .ok a ↔ Settled denotes default value a := by
  cases value with
  | none =>
      constructor
      · rintro ⟨⟩
        exact .unset
      · rintro ⟨⟩
        rfl
  | some text =>
      constructor
      · exact fun h => .set ((hread text a).mp h)
      · rintro (_ | h)
        exact (hread text a).mpr h

theorem elim_eq_error_iff {read : String → Except ConfigError α} {default : α}
    {value : Option String} :
    value.elim (.ok default) read = .error e ↔ ∃ text, value = some text ∧ read text = .error e := by
  cases value <;> simp

theorem loadRules_eq_ok_iff {path : String} {rules : Rules} :
    loadRules d path = .ok rules ↔ HoldsRules d path rules := by
  simp only [HoldsRules, ← Disk.fileText_eq_ok_iff]
  unfold loadRules
  cases d.fileText (.ofText path) with
  | error cause => simp
  | ok text => cases hparse : Rules.parse text <;> simp [Except.mapError, hparse]

theorem loadRules_eq_error_iff {path : String} :
    loadRules d path = .error e ↔ Complains d .rules path e := by
  unfold loadRules
  constructor
  · intro h
    cases hfile : d.fileText (.ofText path) with
    | error cause =>
        rw [hfile] at h
        cases h
        exact .unreadable hfile
    | ok text =>
        rw [hfile] at h
        dsimp only at h
        cases hparse : Rules.parse text with
        | error fault =>
            rw [hparse] at h
            cases h
            exact .invalidRules (Disk.fileText_eq_ok_iff.mp hfile) hparse
        | ok rules =>
            rw [hparse] at h
            cases h
  · rintro (hfile | ⟨hfile, hparse⟩ | _ | ⟨hnumeric, -⟩)
    · rw [hfile]
    · rw [Disk.fileText_eq_ok_iff.mpr hfile]
      dsimp only
      rw [hparse]
      rfl
    · simp [numbers] at hnumeric

theorem namesPolicy_iff {name : String} {policy : Policy} :
    NamesPolicy name policy ↔ policy.name = name := by
  constructor
  · rintro (_ | _) <;> rfl
  · rintro rfl
    cases policy
    · exact .perBand
    · exact .pooled

theorem policyOf_eq_ok_iff {policy : Policy} :
    policyOf env = .ok policy ↔ Settled NamesPolicy .perBand (env .policy) policy := by
  rw [policyOf_eq]
  refine elim_eq_ok_iff ?_
  intro name policy
  rw [namesPolicy_iff, ← Policy.ofName_eq_ok_iff]
  cases Policy.ofName name <;> simp [Except.mapError]

/-- A variable is set to a text that is complained about. -/
def Offends (d : Disk) (env : Environment) (setting : Setting) (e : ConfigError) : Prop :=
  ∃ text, env setting = some text ∧ Complains d setting text e

theorem rulesOf_eq_ok_iff {rules : Rules} :
    rulesOf d env = .ok rules ↔ Settled (HoldsRules d) .standard (env .rules) rules := by
  rw [rulesOf_eq]
  exact elim_eq_ok_iff fun _ _ => loadRules_eq_ok_iff

theorem rulesOf_eq_error_iff : rulesOf d env = .error e ↔ Offends d env .rules e := by
  simp only [rulesOf_eq, elim_eq_error_iff, loadRules_eq_error_iff, Offends]

theorem complains_policy_iff {name : String} : Complains d .policy name e ↔
    (∀ policy, ¬ NamesPolicy name policy) ∧ e = .invalidPolicy name := by
  constructor
  · rintro (_ | _ | unknown | ⟨numeric, -⟩)
    · exact ⟨unknown, rfl⟩
    · simp [numbers] at numeric
  · rintro ⟨unknown, rfl⟩
    exact .invalidPolicy unknown

theorem policyOf_eq_error_iff : policyOf env = .error e ↔ Offends d env .policy e := by
  simp only [policyOf_eq, elim_eq_error_iff, Offends, complains_policy_iff, namesPolicy_iff,
    ← Policy.ofName_eq_ok_iff]
  refine exists_congr fun name => and_congr_right fun _ => ?_
  cases hname : Policy.ofName name <;> simp [Except.mapError, eq_comm]

variable {setting : Setting}

theorem number_eq : number env setting bits = (env setting).elim (.ok none) fun value =>
    (number? bits (Blank.trim value.toList)).elim (.error (.invalidValue setting value))
      fun n => .ok (some n) := by
  unfold number
  cases env setting with
  | none => rfl
  | some value =>
      dsimp only [Option.elim_some]
      cases number? bits (Blank.trim value.toList) <;> rfl

theorem number_eq_ok_iff {found : Option Nat} : number env setting bits = .ok found ↔
    Settled (fun value found => ∃ n, SaysNumber bits value.toList n ∧ found = some n) none
      (env setting) found := by
  rw [number_eq]
  refine elim_eq_ok_iff ?_
  intro value found
  simp only [← number?_trim_eq_some_iff]
  cases number? bits (Blank.trim value.toList) <;> simp [eq_comm]

theorem complains_number_iff {value : String} (numeric : (setting, bits) ∈ numbers) :
    Complains d setting value e ↔
      (∀ n, ¬ SaysNumber bits value.toList n) ∧ e = .invalidValue setting value := by
  have hbits : ∀ bits', (setting, bits') ∈ numbers → bits' = bits := by
    intro bits' h
    simp only [numbers, List.mem_cons, Prod.mk.injEq, List.not_mem_nil, or_false] at numeric h
    rcases numeric with ⟨rfl, rfl⟩ | ⟨rfl, rfl⟩ | ⟨rfl, rfl⟩ <;> simpa using h
  constructor
  · rintro (_ | _ | _ | ⟨numeric', unfit⟩)
    · simp [numbers] at numeric
    · simp [numbers] at numeric
    · simp [numbers] at numeric
    · exact ⟨hbits _ numeric' ▸ unfit, rfl⟩
  · rintro ⟨unfit, rfl⟩
    exact .invalidValue numeric unfit

theorem number_eq_error_iff (numeric : (setting, bits) ∈ numbers) :
    number env setting bits = .error e ↔ Offends d env setting e := by
  simp only [number_eq, elim_eq_error_iff, Offends, complains_number_iff numeric,
    ← number?_trim_eq_some_iff]
  refine exists_congr fun value => and_congr_right fun _ => ?_
  cases number? bits (Blank.trim value.toList) <;> simp [eq_comm]

/-! ## The order in which the variables are looked at -/

def order : List Setting := [.rules, .policy, .metricsPort, .maxShifts, .threshold]

theorem exists_first_cons_iff {accepted refused : Setting → Prop} {s : Setting}
    {settings : List Setting} :
    (∃ before t after, s :: settings = before ++ t :: after ∧ (∀ u ∈ before, accepted u) ∧
        refused t) ↔
      refused s ∨ accepted s ∧ ∃ before t after, settings = before ++ t :: after ∧
        (∀ u ∈ before, accepted u) ∧ refused t := by
  constructor
  · rintro ⟨before, t, after, hsplit, hbefore, ht⟩
    cases before with
    | nil =>
        obtain ⟨rfl, -⟩ := List.cons.inj hsplit
        exact Or.inl ht
    | cons u before =>
        obtain ⟨rfl, hrest⟩ := List.cons.inj hsplit
        rw [List.forall_mem_cons] at hbefore
        exact Or.inr ⟨hbefore.1, before, t, after, hrest, hbefore.2, ht⟩
  · rintro (hs | ⟨hs, before, t, after, rfl, hbefore, ht⟩)
    · exact ⟨[], s, settings, rfl, by simp, hs⟩
    · exact ⟨s :: before, t, after, rfl, List.forall_mem_cons.mpr ⟨hs, hbefore⟩, ht⟩

/-- Where the rest fails in the same way for every value, it fails if there is a value at all. -/
theorem bind_eq_error_iff_of_forall {β : Type} {x : Except ConfigError α}
    {f : α → Except ConfigError β} {fails : Prop} (hf : ∀ a, f a = .error e ↔ fails) :
    (x >>= f) = .error e ↔ x = .error e ∨ (∀ e', x ≠ .error e') ∧ fails := by
  cases x with
  | error e' => simp [bind, Except.bind]
  | ok a => simp [ok_bind, hf]

/-- The complaint is about the first variable that offends. -/
theorem load_eq_error_iff : load d env = .error e ↔
    ∃ before s after, order = before ++ s :: after ∧ (∀ t ∈ before, ∀ e', ¬ Offends d env t e') ∧
      Offends d env s e := by
  have hnumber : ∀ {setting : Setting} {bits : Nat}, (setting, bits) ∈ numbers → ∀ e,
      number env setting bits = .error e ↔ Offends d env setting e :=
    fun numeric _ => number_eq_error_iff numeric
  have hport := hnumber (show (.metricsPort, 16) ∈ numbers by decide)
  have hshifts := hnumber (show (.maxShifts, 64) ∈ numbers by decide)
  have hthreshold := hnumber (show (.threshold, 64) ∈ numbers by decide)
  have hend : ∀ config : Config, (pure config : Except ConfigError Config) = .error e ↔ False :=
    fun config => by simp [pure, Except.pure]
  unfold load
  rw [bind_eq_error_iff_of_forall fun rules => bind_eq_error_iff_of_forall fun policy =>
    bind_eq_error_iff_of_forall fun port => bind_eq_error_iff_of_forall fun shifts =>
    bind_eq_error_iff_of_forall fun threshold => hend _]
  simp only [order, exists_first_cons_iff, ne_eq, rulesOf_eq_error_iff,
    policyOf_eq_error_iff (d := d), hport, hshifts, hthreshold]
  simp

/-! ## The configuration -/

/-- Every field has the value that its own variable gives. -/
structure Configures (d : Disk) (lookup : String → Option String) (config : Config) : Prop where
  rules : Settled (HoldsRules d) .standard (lookup "ROTA_RULES") config.rules
  policy : Settled NamesPolicy .perBand (lookup "ROTA_RATIO_POLICY") config.policy
  /-- An empty text is no database. -/
  databaseUrl : ∀ url, config.databaseUrl = some url ↔
    lookup "ROTA_DATABASE_URL" = some url ∧ url ≠ ""
  journalPath : Settled Eq standardJournalPath (lookup "ROTA_JOURNAL") config.journalPath
  metricsPort : Settled (fun value port => ∃ n, SaysNumber 16 value.toList n ∧ port = some n) none
    (lookup "ROTA_METRICS_PORT") config.metricsPort
  maxShifts : Settled (fun value n => SaysNumber 64 value.toList n) standardMaxShifts
    (lookup "ROTA_MAX_SHIFTS") config.maxShifts
  threshold : Settled (fun value n => SaysNumber 64 value.toList n) standardThreshold
    (lookup "ROTA_COMPACT_THRESHOLD") config.threshold

theorem exists_getD_iff {denotes : String → Nat → Prop} {default n : Nat} {value : Option String} :
    (∃ found, Settled (fun text found => ∃ k, denotes text k ∧ found = some k) none value found ∧
      n = found.getD default) ↔ Settled denotes default value n := by
  constructor
  · rintro ⟨found, hfound | ⟨k, hk, rfl⟩, rfl⟩
    · exact .unset
    · exact .set hk
  · rintro (_ | h)
    · exact ⟨none, .unset, rfl⟩
    · exact ⟨some n, .set ⟨n, h, rfl⟩, rfl⟩

theorem getD_eq_iff {default s : String} {value : Option String} :
    s = value.getD default ↔ Settled Eq default value s := by
  constructor
  · rintro rfl
    cases value with
    | none => exact .unset
    | some text => exact .set rfl
  · rintro (_ | rfl) <;> rfl

theorem filter_eq_iff {url? value : Option String} :
    url? = value.filter (· ≠ "") ↔ ∀ url, url? = some url ↔ value = some url ∧ url ≠ "" := by
  constructor
  · rintro rfl url
    simp [Option.filter_eq_some_iff]
  · intro h
    ext url
    simp [h, Option.filter_eq_some_iff]

end Config

/-- The variables by their names. -/
def Environment.ofLookup (lookup : String → Option String) : Environment :=
  fun setting => lookup setting.key

namespace Config

theorem load_ofLookup_eq_ok_iff {lookup : String → Option String} {config : Config} :
    load d (Environment.ofLookup lookup) = .ok config ↔ Configures d lookup config := by
  rw [load_eq_ok_iff]
  simp only [rulesOf_eq_ok_iff, policyOf_eq_ok_iff, number_eq_ok_iff]
  constructor
  · rintro ⟨rules, policy, port, shifts, threshold, hrules, hpolicy, hport, hshifts, hthreshold,
      rfl⟩
    exact ⟨hrules, hpolicy, filter_eq_iff.mp rfl, getD_eq_iff.mp rfl, hport,
      exists_getD_iff.mp ⟨_, hshifts, rfl⟩, exists_getD_iff.mp ⟨_, hthreshold, rfl⟩⟩
  · rintro ⟨hrules, hpolicy, hdatabase, hjournal, hport, hmost, hlimit⟩
    obtain ⟨shifts, hshifts, hmost⟩ := exists_getD_iff.mpr hmost
    obtain ⟨threshold, hthreshold, hlimit⟩ := exists_getD_iff.mpr hlimit
    refine ⟨_, _, _, shifts, threshold, hrules, hpolicy, hport, hshifts, hthreshold, ?_⟩
    cases config
    simp only [Config.mk.injEq, true_and]
    exact ⟨filter_eq_iff.mpr hdatabase, getD_eq_iff.mpr hjournal, hmost, hlimit⟩

theorem exists_settled_iff {denotes : String → α → Prop} {default : α} {value : Option String} :
    (∃ a, Settled denotes default value a) ↔ ∀ text, value = some text → ∃ a, denotes text a := by
  constructor
  · rintro ⟨a, _ | h⟩ text htext
    · cases htext
    · exact ⟨a, Option.some.inj htext ▸ h⟩
  · intro h
    cases value with
    | none => exact ⟨default, .unset⟩
    | some text =>
        obtain ⟨a, ha⟩ := h text rfl
        exact ⟨a, .set ha⟩

/-- Loading succeeds exactly if every variable that is set denotes something. -/
theorem succeeds_load_ofLookup_iff {lookup : String → Option String} :
    Succeeds (load d (Environment.ofLookup lookup)) ↔
      (∀ path, lookup "ROTA_RULES" = some path → ∃ rules, HoldsRules d path rules) ∧
      (∀ name, lookup "ROTA_RATIO_POLICY" = some name → name = "per_band" ∨ name = "pooled") ∧
      ∀ entry ∈ numbers, ∀ value, lookup entry.1.key = some value →
        ∃ n, SaysNumber entry.2 value.toList n := by
  have hnames : ∀ name, (∃ policy, NamesPolicy name policy) ↔
      name = "per_band" ∨ name = "pooled" := by
    intro name
    constructor
    · rintro ⟨_, _ | _⟩ <;> simp
    · rintro (rfl | rfl)
      · exact ⟨_, .perBand⟩
      · exact ⟨_, .pooled⟩
  have hnumber : ∀ entry : Setting × Nat,
      Succeeds (number (Environment.ofLookup lookup) entry.1 entry.2) ↔
        ∀ value, lookup entry.1.key = some value → ∃ n, SaysNumber entry.2 value.toList n := by
    intro entry
    simp only [succeeds_number_iff, Environment.ofLookup, ← number?_trim_eq_some_iff,
      Option.ne_none_iff_exists']
  rw [succeeds_load_iff]
  refine and_congr ?_ (and_congr ?_ (forall₂_congr fun entry _ => hnumber entry))
  · simp only [Succeeds, rulesOf_eq_ok_iff, exists_settled_iff]
    exact Iff.rfl
  · simp only [Succeeds, policyOf_eq_ok_iff, exists_settled_iff, hnames]
    exact Iff.rfl

/-- Which variables are refused, what the others come to, and which of several wrong ones is named. -/
theorem load_exact (d : Disk) (lookup : String → Option String) :
    (Succeeds (load d (Environment.ofLookup lookup)) ↔
      (∀ path, lookup "ROTA_RULES" = some path → ∃ rules, HoldsRules d path rules) ∧
      (∀ name, lookup "ROTA_RATIO_POLICY" = some name → name = "per_band" ∨ name = "pooled") ∧
      (∀ value, lookup "ROTA_METRICS_PORT" = some value → ∃ n, SaysNumber 16 value.toList n) ∧
      (∀ value, lookup "ROTA_MAX_SHIFTS" = some value → ∃ n, SaysNumber 64 value.toList n) ∧
      ∀ value, lookup "ROTA_COMPACT_THRESHOLD" = some value →
        ∃ n, SaysNumber 64 value.toList n) ∧
    (∀ config, load d (Environment.ofLookup lookup) = .ok config ↔ Configures d lookup config) ∧
    ∀ e, load d (Environment.ofLookup lookup) = .error e ↔
      ∃ before s after, order = before ++ s :: after ∧
        (∀ t ∈ before, ∀ e', ¬ Offends d (Environment.ofLookup lookup) t e') ∧
        Offends d (Environment.ofLookup lookup) s e := by
  refine ⟨?_, fun _ => load_ofLookup_eq_ok_iff, fun _ => load_eq_error_iff⟩
  rw [succeeds_load_ofLookup_iff]
  simp only [numbers, List.forall_mem_cons, List.not_mem_nil, false_implies, implies_true,
    and_true]
  exact Iff.rfl

/-- A port between blanks is one, and of two wrong numbers the limit is looked at first. -/
theorem load_exact_two_wrong :
    let lookup : String → Option String := fun name =>
      if name = "ROTA_METRICS_PORT" then some " +9100\n"
      else if name = "ROTA_MAX_SHIFTS" then some " -5"
      else if name = "ROTA_COMPACT_THRESHOLD" then some "lots"
      else none
    load .empty (Environment.ofLookup lookup) = .error (.invalidValue .maxShifts " -5") := by
  intro lookup
  refine ((load_exact .empty lookup).2.2 _).mpr
    ⟨[.rules, .policy, .metricsPort], .maxShifts, [.threshold], rfl, ?_, ?_⟩
  · simp only [List.forall_mem_cons, List.not_mem_nil, false_implies, implies_true, and_true]
    refine ⟨?_, ?_, ?_⟩
    · rintro e ⟨path, hpath, -⟩
      cases hpath
    · rintro e ⟨name, hname, -⟩
      cases hname
    · rintro e ⟨value, hvalue, hcomplaint⟩
      obtain rfl : " +9100\n" = value := Option.some.inj hvalue
      have hport : (.metricsPort, 16) ∈ numbers := by decide
      refine ((complains_number_iff hport).mp hcomplaint).1 9100 ?_
      exact number?_trim_eq_some_iff.mp (by decide)
  · have hshifts : (.maxShifts, 64) ∈ numbers := by decide
    refine ⟨" -5", rfl, (complains_number_iff hshifts).mpr ⟨?_, rfl⟩⟩
    intro n hn
    have hread := number?_trim_eq_some_iff.mpr hn
    rw [show number? 64 (Blank.trim " -5".toList) = none by decide] at hread
    cases hread

end Config

end NurseryRota
