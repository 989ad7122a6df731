import NurseryRota.Proofs.StaffNeed

/-!
# The need is exact in machine words

Nothing is rounded on the way to a pooled need but the last quotient.  The common multiple is after
every band the least one of the ratios so far, so each band's children take a whole number of parts,
and every number fits: in 64 bits up to the sum of the parts, and in 32 bits after the division.  A
need is then the least number of staff that suffices, for the whole group under one policy and for
each band on its own under the other.
-/

namespace NurseryRota.Rules

variable {rules : Rules} {children : ByBand Nat}

/-- The numbers that lead to a pooled need.  None leaves its word and no division before the last
has a remainder. -/
structure Pools (rules : Rules) (children : ByBand Nat) (multiple parts need : Nat) : Prop where
  /-- After any first bands there is a least common multiple of their ratios, and what it is then
  divided by goes into it. -/
  running : ∀ bs, bs <+: Band.all → ∃ m, bs.foldlM rules.raise 1 = .ok m ∧ m < capacity 64 ∧
    (∀ n, m ∣ n ↔ ∀ b ∈ bs, rules.get b ∣ n) ∧ ∀ b, commonDivisor m (rules.pooledRatio b) ∣ m
  multiple_eq : rules.commonMultiple = .ok multiple
  whole : ∀ b, rules.pooledRatio b ∣ multiple
  partsOf_lt : ∀ b, rules.partsOf multiple children b < capacity 64
  sum_eq : parts = (Band.all.map (rules.partsOf multiple children)).sum
  sum_lt : parts < capacity 64
  parts_eq : rules.pooledParts multiple children = .ok parts
  need_eq : Bounded.ceilDiv parts multiple = .ok need
  need_lt : need < capacity 32

theorem isLeast_natCeil (x : ℚ) : IsLeast {n : ℕ | x ≤ n} ⌈x⌉₊ :=
  ⟨Nat.le_ceil x, fun _ hn => Nat.ceil_le.mpr hn⟩

theorem isLeast_natCeil_share (hrules : rules.Accepted) (children : ByBand Nat) (b : Band) :
    IsLeast {n : ℕ | children.get b ≤ n * rules.get b} ⌈rules.share children b⌉₊ := by
  have hratio : (0 : ℚ) < rules.get b := by exact_mod_cast (hrules b).1
  have hsuffices : ∀ n : ℕ, rules.share children b ≤ n ↔ children.get b ≤ n * rules.get b := by
    intro n
    unfold share
    rw [div_le_iff₀ hratio]
    norm_cast
  simpa only [hsuffices] using isLeast_natCeil (rules.share children b)

theorem exists_running (hrules : rules.Accepted) {bs : List Band} (hbs : bs <+: Band.all) :
    ∃ m, bs.foldlM rules.raise 1 = .ok m ∧ m < capacity 64 ∧
      (∀ n, m ∣ n ↔ ∀ b ∈ bs, rules.get b ∣ n) ∧ ∀ b, commonDivisor m (rules.pooledRatio b) ∣ m := by
  have hlength : bs.length ≤ 3 := hbs.length_le
  have hroom : 1 * 64 ^ bs.length < capacity 64 := by
    have hpow : 64 ^ bs.length ≤ 64 ^ 3 := Nat.pow_le_pow_right (by decide) hlength
    have hthree : 64 ^ 3 < capacity 64 := by decide
    omega
  obtain ⟨m, hfold, -, hle, hdvd⟩ := exists_foldlM_raise hrules Nat.one_pos hroom
  refine ⟨m, hfold, Nat.lt_of_le_of_lt hle hroom, ?_, ?_⟩
  · intro n
    rw [hdvd]
    exact and_iff_right (Nat.one_dvd n)
  · intro b
    rw [commonDivisor_eq_gcd]
    exact Nat.gcd_dvd_left m _

theorem exists_pools (hrules : rules.Accepted) (htotal : total children < capacity 32) :
    ∃ multiple parts, rules.Pools children multiple parts (rules.rounded .pooled children) := by
  obtain ⟨m, hmultiple, hpos, hm, hdvd⟩ := commonMultiple_eq_ok hrules
  have hsum : (Band.all.map (rules.partsOf m children)).sum < capacity 64 := sum_partsOf_lt hm htotal
  have hbound := rounded_le_total hrules .pooled children
  refine ⟨m, _, fun bs hbs => exists_running hrules hbs, hmultiple, ?_, ?_, rfl, hsum,
    pooledParts_eq_ok hsum, ceilDiv_partsOf hrules hpos hdvd, by omega⟩
  · intro b
    rw [pooledRatio_eq hrules]
    exact hdvd b
  · intro b
    rw [sum_partsOf] at hsum
    cases b <;> omega

/-- Accepted rules tell for every group of fewer than `2 ^ 32` children the least staff that
suffices, and every number on the way is exact: pooled, the least that is not below the sum of the
bands' fractions; per band, the sum of the least that each band needs on its own. -/
theorem staffNeeded_exact (hrules : rules.Accepted) (htotal : total children < capacity 32) :
    (∃ multiple parts need, rules.Pools children multiple parts need ∧
        rules.staffNeeded .pooled children = .ok need ∧
        IsLeast {n : ℕ | rules.share children .underTwo + rules.share children .twoYearOld +
          rules.share children .threePlus ≤ n} need) ∧
      ∃ need : Band → ℕ, (∀ b, IsLeast {n : ℕ | children.get b ≤ n * rules.get b} (need b)) ∧
        rules.staffNeeded .perBand children =
          .ok (need .underTwo + need .twoYearOld + need .threePlus) ∧
        need .underTwo + need .twoYearOld + need .threePlus < capacity 32 := by
  constructor
  · obtain ⟨multiple, parts, hpools⟩ := exists_pools hrules htotal
    refine ⟨multiple, parts, _, hpools, staffNeeded_eq_ok hrules .pooled htotal, ?_⟩
    rw [rounded_pooled]
    exact isLeast_natCeil _
  · have hneeded := staffNeeded_eq_ok hrules .perBand htotal
    have hbound := rounded_le_total hrules .perBand children
    rw [rounded_perBand] at hneeded hbound
    exact ⟨fun b => ⌈rules.share children b⌉₊, isLeast_natCeil_share hrules children, hneeded,
      Nat.lt_of_le_of_lt hbound htotal⟩

/-- As many children as fit in 32 bits, of whom a half, a third and a sixth of one more member of
staff are left to look after: pooled that one suffices, and per band it takes three. -/
theorem staffNeeded_exact_full_house :
    let rules : Rules := ⟨2, 3, 6⟩
    let children : ByBand Nat := ⟨2 ^ 32 - 3, 1, 1⟩
    rules.Accepted ∧ total children = capacity 32 - 1 ∧
      (∃ multiple parts need, rules.Pools children multiple parts need ∧
        rules.staffNeeded .pooled children = .ok need ∧ need = 2 ^ 31 - 1 ∧
        IsLeast {n : ℕ | rules.share children .underTwo + rules.share children .twoYearOld +
          rules.share children .threePlus ≤ n} need) ∧
      rules.staffNeeded .perBand children = .ok (2 ^ 31 + 1) := by
  intro rules children
  have hrules : rules.Accepted := by
    intro b
    cases b <;> decide
  obtain ⟨⟨multiple, parts, need, hpools, hneed, hleast⟩, -⟩ :=
    staffNeeded_exact hrules (show total children < capacity 32 by decide)
  have hpooled : rules.staffNeeded .pooled children = .ok (2 ^ 31 - 1) := by decide +kernel
  refine ⟨hrules, by decide, ⟨multiple, parts, need, hpools, hneed, ?_, hleast⟩, by decide +kernel⟩
  exact Except.ok.inj (hneed.symm.trans hpooled)

end NurseryRota.Rules
