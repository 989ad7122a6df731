import NurseryRota.Proofs.Headcounts

/-!
# How far the needs of two policies lie apart

Both policies round the same three shares, one after adding them and the other before, so the needs
differ by less than the number of bands.  A need follows its shares: it is none when they are none,
it does not fall when they rise, and one more child, whose share is at most one, raises it by one
at most.  A higher ratio makes a share smaller, whatever common multiple the ratios then have.
-/

namespace NurseryRota.Rules

variable {rules : Rules} {children : ByBand Nat}

theorem share_nonneg (rules : Rules) (children : ByBand Nat) (b : Band) :
    0 ≤ rules.share children b := by
  unfold share
  positivity

theorem share_nonpos_iff (hrules : rules.Accepted) (b : Band) :
    rules.share children b ≤ 0 ↔ children.get b = 0 := by
  have hratio : (0 : ℚ) < rules.get b := by exact_mod_cast (hrules b).1
  unfold share
  rw [div_le_iff₀ hratio, zero_mul]
  exact_mod_cast Nat.le_zero

theorem rounded_eq_zero_iff (hrules : rules.Accepted) (policy : Policy) :
    rules.rounded policy children = 0 ↔ ∀ b, children.get b = 0 := by
  simp only [← share_nonpos_iff hrules]
  cases policy with
  | perBand =>
      simp only [rounded_perBand, ← Nat.ceil_eq_zero]
      constructor
      · intro hneed b
        cases b <;> omega
      · intro hnone
        rw [hnone .underTwo, hnone .twoYearOld, hnone .threePlus]
  | pooled =>
      have hshare := share_nonneg rules children
      rw [rounded_pooled, Nat.ceil_eq_zero]
      constructor
      · intro hneed b
        cases b <;> linarith [hshare .underTwo, hshare .twoYearOld, hshare .threePlus]
      · intro hnone
        linarith [hnone .underTwo, hnone .twoYearOld, hnone .threePlus]

/-- Each of the three shares is rounded up by less than one. -/
theorem rounded_perBand_le :
    rules.rounded .perBand children ≤ rules.rounded .pooled children + 2 := by
  have hceil : ∀ b, (⌈rules.share children b⌉₊ : ℚ) < rules.share children b + 1 := fun b =>
    Nat.ceil_lt_add_one (share_nonneg rules children b)
  have hsum := Nat.le_ceil (rules.share children .underTwo + rules.share children .twoYearOld +
    rules.share children .threePlus)
  rw [rounded_perBand, rounded_pooled, ← Nat.lt_succ_iff, ← Nat.cast_lt (α := ℚ)]
  push_cast
  linarith [hceil .underTwo, hceil .twoYearOld, hceil .threePlus]

/-! ## One more child -/

/-- The children and one more of a band. -/
def joined (children : ByBand Nat) (b : Band) : ByBand Nat := children.set b (children.get b + 1)

theorem total_joined (children : ByBand Nat) (b : Band) :
    total (joined children b) = total children + 1 := by
  have := children.total_set b (children.get b + 1)
  unfold joined
  omega

theorem get_joined (children : ByBand Nat) (b c : Band) :
    (joined children b).get c = children.get c + if c = b then 1 else 0 := by
  unfold joined
  rw [ByBand.get_set]
  split
  · next h => rw [h]
  · rfl

theorem share_joined_le (hrules : rules.Accepted) (children : ByBand Nat) (b c : Band) :
    rules.share (joined children b) c ≤
      rules.share children c + (if c = b then 1 else 0 : ℕ) := by
  have hratio : (1 : ℚ) ≤ rules.get c := by exact_mod_cast (hrules c).1
  unfold share
  rw [get_joined, Nat.cast_add, add_div]
  exact add_le_add (le_refl _) (div_le_self (Nat.cast_nonneg _) hratio)

theorem rounded_joined_le (hrules : rules.Accepted) (policy : Policy) (b : Band) :
    rules.rounded policy (joined children b) ≤ rules.rounded policy children + 1 := by
  have hshare := share_joined_le hrules children b
  cases policy with
  | perBand =>
      have hceil : ∀ c, ⌈rules.share (joined children b) c⌉₊ ≤
          ⌈rules.share children c⌉₊ + if c = b then 1 else 0 := fun c =>
        (Nat.ceil_mono (hshare c)).trans
          (Nat.ceil_add_natCast (share_nonneg rules children c) _).le
      have h₁ := hceil .underTwo
      have h₂ := hceil .twoYearOld
      have h₃ := hceil .threePlus
      rw [rounded_perBand, rounded_perBand]
      cases b <;> simp only [reduceCtorEq, if_true, if_false] at h₁ h₂ h₃ <;> omega
  | pooled =>
      have hsum := Nat.le_ceil (rules.share children .underTwo + rules.share children .twoYearOld +
        rules.share children .threePlus)
      have h₁ := hshare .underTwo
      have h₂ := hshare .twoYearOld
      have h₃ := hshare .threePlus
      rw [rounded_pooled, rounded_pooled, Nat.ceil_le]
      push_cast at h₁ h₂ h₃ ⊢
      cases b <;> simp only [reduceCtorEq, if_true, if_false] at h₁ h₂ h₃ <;> linarith

theorem rounded_le_joined (policy : Policy) (b : Band) :
    rules.rounded policy children ≤ rules.rounded policy (joined children b) := by
  apply rounded_mono
  intro c
  rw [get_joined]
  exact Nat.le_add_right _ _

/-! ## The needs that are told -/

/-- Accepted rules tell both needs of every group of fewer than `2 ^ 32` children.  Pooled, the need
is at most that of the bands, and by two less at most.  Under either policy it is none for nobody
alone, does not fall when there are more children, rises by at most one for one more child, and does
not rise when a ratio does. -/
theorem staffNeeded_bounds (hrules : rules.Accepted) (htotal : total children < capacity 32) :
    (∃ pooled perBand, rules.staffNeeded .pooled children = .ok pooled ∧
        rules.staffNeeded .perBand children = .ok perBand ∧
        pooled ≤ perBand ∧ perBand ≤ pooled + 2) ∧
      ∀ policy, ∃ need, rules.staffNeeded policy children = .ok need ∧
        (need = 0 ↔ ∀ b, children.get b = 0) ∧
        (∀ children', (∀ b, children.get b ≤ children'.get b) → total children' < capacity 32 →
          ∃ more, rules.staffNeeded policy children' = .ok more ∧ need ≤ more) ∧
        (∀ b, total children + 1 < capacity 32 →
          ∃ more, rules.staffNeeded policy (joined children b) = .ok more ∧
            need ≤ more ∧ more ≤ need + 1) ∧
        ∀ rules' : Rules, rules'.Accepted → (∀ b, rules.get b ≤ rules'.get b) →
          ∃ less, rules'.staffNeeded policy children = .ok less ∧ less ≤ need := by
  constructor
  · exact ⟨_, _, staffNeeded_eq_ok hrules .pooled htotal, staffNeeded_eq_ok hrules .perBand htotal,
      rounded_pooled_le, rounded_perBand_le⟩
  · intro policy
    refine ⟨_, staffNeeded_eq_ok hrules policy htotal, rounded_eq_zero_iff hrules policy, ?_, ?_,
      ?_⟩
    · intro children' hmore htotal'
      exact ⟨_, staffNeeded_eq_ok hrules policy htotal', rounded_mono hmore policy⟩
    · intro b htotal'
      rw [← total_joined children b] at htotal'
      exact ⟨_, staffNeeded_eq_ok hrules policy htotal', rounded_le_joined policy b,
        rounded_joined_le hrules policy b⟩
    · intro rules' hrules' hratios
      exact ⟨_, staffNeeded_eq_ok hrules' policy htotal, rounded_anti hrules hratios policy⟩

/-- One child of each band: pooled they need a single member of staff, and per band three.  With one
more child there must be another, unless the rules are eased. -/
theorem staffNeeded_bounds_one_of_each :
    let rules : Rules := ⟨3, 4, 8⟩
    let eased : Rules := ⟨3, 6, 9⟩
    let children : ByBand Nat := ⟨1, 1, 1⟩
    rules.Accepted ∧ eased.Accepted ∧ total children + 1 < capacity 32 ∧
      (∃ pooled perBand, rules.staffNeeded .pooled children = .ok pooled ∧ pooled = 1 ∧
        rules.staffNeeded .perBand children = .ok perBand ∧ perBand = pooled + 2) ∧
      (∃ more, rules.staffNeeded .pooled (joined children .underTwo) = .ok more ∧ more = 2 ∧
        more ≤ 1 + 1) ∧
      ∃ less, eased.staffNeeded .pooled (joined children .underTwo) = .ok less ∧ less = 1 ∧
        less ≤ 2 := by
  intro rules eased children
  have hrules : rules.Accepted := by
    intro b
    cases b <;> decide
  have heased : eased.Accepted := by
    intro b
    cases b <;> decide
  have htotal : total children + 1 < capacity 32 := by decide
  have hratios : ∀ b, rules.get b ≤ eased.get b := by
    intro b
    cases b <;> decide
  have hpooled : rules.staffNeeded .pooled children = .ok 1 := by decide +kernel
  have hperBand : rules.staffNeeded .perBand children = .ok 3 := by decide +kernel
  have hmore : rules.staffNeeded .pooled (joined children .underTwo) = .ok 2 := by decide +kernel
  have hless : eased.staffNeeded .pooled (joined children .underTwo) = .ok 1 := by decide +kernel
  obtain ⟨-, hneeds⟩ := staffNeeded_bounds hrules (show total children < capacity 32 by decide)
  obtain ⟨need, hneed, -, -, hjoined, -⟩ := hneeds .pooled
  obtain rfl : 1 = need := Except.ok.inj (hpooled.symm.trans hneed)
  obtain ⟨more, hmore', -, hle⟩ := hjoined .underTwo htotal
  obtain rfl : 2 = more := Except.ok.inj (hmore.symm.trans hmore')
  obtain ⟨-, hneeds'⟩ := staffNeeded_bounds hrules
    (show total (joined children .underTwo) < capacity 32 by decide)
  obtain ⟨need, hneed', -, -, -, hratio⟩ := hneeds' .pooled
  obtain rfl : 2 = need := Except.ok.inj (hmore.symm.trans hneed')
  obtain ⟨less, hless', hle'⟩ := hratio eased heased hratios
  obtain rfl : 1 = less := Except.ok.inj (hless.symm.trans hless')
  exact ⟨hrules, heased, htotal, ⟨1, 3, hpooled, rfl, hperBand, rfl⟩, ⟨2, hmore, rfl, hle⟩,
    ⟨1, hless, rfl, hle'⟩⟩

end NurseryRota.Rules
