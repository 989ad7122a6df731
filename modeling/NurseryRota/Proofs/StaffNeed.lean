import Mathlib.Data.Nat.Cast.Field
import Mathlib.Data.Rat.Floor
import Mathlib.Tactic.FieldSimp
import Mathlib.Tactic.Positivity
import NurseryRota.Proofs.Outcome
import NurseryRota.Staffing.Requirement

/-!
# The need for staff is an exact sum of fractions

Under accepted rules no step of the need leaves its range: every ratio lies between 1 and 64, so a
common multiple of the three is at most 64 cubed, and the parts of fewer than `2 ^ 32` children stay
far below `2 ^ 64`.  The need is then what its policy says it is: each band's children over the
band's ratio, rounded up band by band or once for all.
-/

namespace NurseryRota

/-- The rounded quotient is told by the numbers that it does not exceed. -/
theorem natCeil_div {a b : Nat} (h : 0 < b) : ⌈(a : ℚ) / b⌉₊ = (a + b - 1) / b := by
  apply eq_of_forall_ge_iff
  intro n
  have hpos : (0 : ℚ) < b := by exact_mod_cast h
  rw [Nat.ceil_le, div_le_iff₀ hpos, Nat.div_le_iff_le_mul_add_pred h]
  norm_cast
  rw [Nat.mul_comm n b]
  omega

namespace Bounded

theorem add_eq_ok {bits a b : Nat} (h : a + b < capacity bits) : add bits a b = .ok (a + b) := by
  unfold add
  rw [if_pos h]

theorem mul_eq_ok {bits a b : Nat} (h : a * b < capacity bits) : mul bits a b = .ok (a * b) := by
  unfold mul
  rw [if_pos h]

theorem sub_eq_ok {a b : Nat} (h : b ≤ a) : sub a b = .ok (a - b) := by
  unfold sub
  rw [if_pos h]

theorem ceilDiv_eq_ok {a b : Nat} (h : 0 < b) : ceilDiv a b = .ok ⌈(a : ℚ) / b⌉₊ := by
  unfold ceilDiv
  rw [if_neg (by omega), natCeil_div h]

end Bounded

namespace Rules

variable {rules : Rules} {children : ByBand Nat}

theorem accepted_standard : standard.Accepted := (outOfRange?_eq_none_iff standard).mp rfl

def total (children : ByBand Nat) : Nat :=
  children.underTwo + children.twoYearOld + children.threePlus

/-- The staff that the children of a band take up, as a fraction. -/
def share (rules : Rules) (children : ByBand Nat) (b : Band) : ℚ := children.get b / rules.get b

def rounded (rules : Rules) (policy : Policy) (children : ByBand Nat) : Nat :=
  match policy with
  | .perBand => (Band.all.map fun b => ⌈rules.share children b⌉₊).sum
  | .pooled => ⌈(Band.all.map (rules.share children)).sum⌉₊

theorem rounded_perBand : rules.rounded .perBand children =
    ⌈rules.share children .underTwo⌉₊ + ⌈rules.share children .twoYearOld⌉₊ +
      ⌈rules.share children .threePlus⌉₊ := by
  simp [rounded, Band.all, Nat.add_assoc]

theorem rounded_pooled : rules.rounded .pooled children =
    ⌈rules.share children .underTwo + rules.share children .twoYearOld +
      rules.share children .threePlus⌉₊ := by
  simp [rounded, Band.all, add_assoc]

theorem share_le (hrules : rules.Accepted) (children : ByBand Nat) (b : Band) :
    rules.share children b ≤ children.get b := by
  have hratio : (1 : ℚ) ≤ rules.get b := by exact_mod_cast (hrules b).1
  exact div_le_self (by positivity) hratio

theorem rounded_le_total (hrules : rules.Accepted) (policy : Policy) (children : ByBand Nat) :
    rules.rounded policy children ≤ total children := by
  have hshare := share_le hrules children
  cases policy with
  | perBand =>
      rw [rounded_perBand]
      exact Nat.add_le_add (Nat.add_le_add (Nat.ceil_le.mpr (hshare .underTwo))
        (Nat.ceil_le.mpr (hshare .twoYearOld))) (Nat.ceil_le.mpr (hshare .threePlus))
  | pooled =>
      rw [rounded_pooled, Nat.ceil_le]
      unfold total
      push_cast
      exact add_le_add (add_le_add (hshare .underTwo) (hshare .twoYearOld)) (hshare .threePlus)

/-- Smaller shares need no more staff. -/
theorem rounded_le_of_share_le {rules' : Rules} {children' : ByBand Nat}
    (h : ∀ b, rules.share children b ≤ rules'.share children' b) (policy : Policy) :
    rules.rounded policy children ≤ rules'.rounded policy children' := by
  cases policy with
  | perBand =>
      rw [rounded_perBand, rounded_perBand]
      exact Nat.add_le_add (Nat.add_le_add (Nat.ceil_mono (h .underTwo))
        (Nat.ceil_mono (h .twoYearOld))) (Nat.ceil_mono (h .threePlus))
  | pooled =>
      rw [rounded_pooled, rounded_pooled]
      exact Nat.ceil_mono (add_le_add (add_le_add (h .underTwo) (h .twoYearOld)) (h .threePlus))

theorem rounded_mono {children' : ByBand Nat} (h : ∀ b, children.get b ≤ children'.get b)
    (policy : Policy) : rules.rounded policy children ≤ rules.rounded policy children' := by
  apply rounded_le_of_share_le
  intro b
  have hchildren : (children.get b : ℚ) ≤ children'.get b := by exact_mod_cast h b
  exact div_le_div_of_nonneg_right hchildren (by positivity)

theorem rounded_anti {rules' : Rules} (hrules : rules.Accepted)
    (h : ∀ b, rules.get b ≤ rules'.get b) (policy : Policy) :
    rules'.rounded policy children ≤ rules.rounded policy children := by
  apply rounded_le_of_share_le
  intro b
  have hpos : (0 : ℚ) < rules.get b := by exact_mod_cast (hrules b).1
  have hratio : (rules.get b : ℚ) ≤ rules'.get b := by exact_mod_cast h b
  exact div_le_div_of_nonneg_left (by positivity) hpos hratio

/-- Rounding once for all needs no more staff than rounding band by band. -/
theorem rounded_pooled_le : rules.rounded .pooled children ≤ rules.rounded .perBand children := by
  rw [rounded_pooled, rounded_perBand, Nat.ceil_le]
  push_cast
  exact add_le_add (add_le_add (Nat.le_ceil _) (Nat.le_ceil _)) (Nat.le_ceil _)

/-! ## Band by band -/

theorem neededPerBand_eq_ok (hrules : rules.Accepted) (htotal : total children < capacity 32) :
    rules.neededPerBand children = .ok (rules.rounded .perBand children) := by
  have hneed : ∀ b, Bounded.ceilDiv (children.get b) (rules.get b) =
      .ok ⌈rules.share children b⌉₊ := fun b => Bounded.ceilDiv_eq_ok (hrules b).1
  have hbound := rounded_le_total hrules .perBand children
  rw [rounded_perBand] at hbound ⊢
  unfold neededPerBand Band.all
  simp only [List.foldlM_cons, List.foldlM_nil, hneed, ok_bind]
  rw [Bounded.add_eq_ok (by omega), ok_bind, Bounded.add_eq_ok (by omega), ok_bind,
    Bounded.add_eq_ok (by omega), ok_bind, Nat.zero_add]
  rfl

/-! ## Once for all -/

theorem pooledRatio_eq (hrules : rules.Accepted) (b : Band) :
    rules.pooledRatio b = rules.get b := by
  have := hrules b
  unfold pooledRatio
  omega

/-- Taking remainders leads to the greatest common divisor. -/
theorem commonDivisor_eq_gcd (a b : Nat) : commonDivisor a b = Nat.gcd a b := by
  induction a, b using commonDivisor.induct with
  | case1 a => rw [commonDivisor, if_pos rfl, Nat.gcd_zero_right]
  | case2 a b hb ih => rw [commonDivisor, if_neg hb, ih, Nat.gcd_comm, ← Nat.gcd_rec, Nat.gcd_comm]

theorem raise_eq_ok (hrules : rules.Accepted) (b : Band) {m : Nat} (hroom : m * 64 < capacity 64) :
    rules.raise m b = .ok (Nat.lcm m (rules.get b)) := by
  have hlcm : m / Nat.gcd m (rules.get b) * rules.get b = Nat.lcm m (rules.get b) :=
    Nat.div_mul_right_comm (Nat.gcd_dvd_left m (rules.get b)) (rules.get b)
  have hle : m / Nat.gcd m (rules.get b) * rules.get b ≤ m * 64 :=
    Nat.mul_le_mul (Nat.div_le_self _ _) (hrules b).2
  unfold raise
  rw [commonDivisor_eq_gcd, pooledRatio_eq hrules, Bounded.mul_eq_ok (by omega), hlcm]

/-- Each band raises a multiple to the least one that its ratio divides as well, by a factor of at
most 64. -/
theorem exists_foldlM_raise (hrules : rules.Accepted) {bs : List Band} {m : Nat} (hpos : 0 < m)
    (hroom : m * 64 ^ bs.length < capacity 64) :
    ∃ k, bs.foldlM rules.raise m = .ok k ∧ 0 < k ∧ k ≤ m * 64 ^ bs.length ∧
      ∀ n, k ∣ n ↔ m ∣ n ∧ ∀ b ∈ bs, rules.get b ∣ n := by
  induction bs generalizing m with
  | nil => exact ⟨m, rfl, hpos, by simp, by simp⟩
  | cons b bs ih =>
      rw [List.length_cons, Nat.pow_succ, Nat.mul_comm (64 ^ _) 64, ← Nat.mul_assoc] at hroom ⊢
      have hone : m * 64 < capacity 64 :=
        Nat.lt_of_le_of_lt (Nat.le_mul_of_pos_right _ (Nat.pow_pos (by decide))) hroom
      have hratio := hrules b
      have hlcm : Nat.lcm m (rules.get b) ≤ m * 64 :=
        Nat.le_trans (Nat.lcm_le_mul hpos hratio.1) (Nat.mul_le_mul_left m hratio.2)
      have hraised : Nat.lcm m (rules.get b) * 64 ^ bs.length ≤ m * 64 * 64 ^ bs.length :=
        Nat.mul_le_mul_right _ hlcm
      obtain ⟨k, hfold, hkpos, hk, hdvd⟩ :=
        ih (Nat.lcm_pos hpos hratio.1) (Nat.lt_of_le_of_lt hraised hroom)
      refine ⟨k, ?_, hkpos, Nat.le_trans hk hraised, ?_⟩
      · rw [List.foldlM_cons, raise_eq_ok hrules b hone, ok_bind, hfold]
      · intro n
        rw [hdvd, Nat.lcm_dvd_iff, List.forall_mem_cons, and_assoc]

theorem commonMultiple_eq_ok (hrules : rules.Accepted) :
    ∃ m, rules.commonMultiple = .ok m ∧ 0 < m ∧ m ≤ 64 * 64 * 64 ∧ ∀ b, rules.get b ∣ m := by
  have hroom : 1 * 64 ^ Band.all.length < capacity 64 := by decide
  obtain ⟨m, hfold, hpos, hle, hdvd⟩ := exists_foldlM_raise hrules Nat.one_pos hroom
  have hratios := ((hdvd m).mp (Nat.dvd_refl m)).2
  exact ⟨m, hfold, hpos, hle, fun b => hratios b (by cases b <;> decide)⟩

/-- The parts that a band's children take of a common multiple of the ratios. -/
def partsOf (rules : Rules) (multiple : Nat) (children : ByBand Nat) (b : Band) : Nat :=
  children.get b * (multiple / rules.pooledRatio b)

theorem partsOf_le (rules : Rules) (multiple : Nat) (children : ByBand Nat) (b : Band) :
    rules.partsOf multiple children b ≤ children.get b * multiple :=
  Nat.mul_le_mul_left _ (Nat.div_le_self _ _)

theorem sum_partsOf (rules : Rules) (multiple : Nat) (children : ByBand Nat) :
    (Band.all.map (rules.partsOf multiple children)).sum =
      rules.partsOf multiple children .underTwo + rules.partsOf multiple children .twoYearOld +
        rules.partsOf multiple children .threePlus := by
  simp [Band.all, Nat.add_assoc]

theorem sum_partsOf_lt {m : Nat} (hm : m ≤ 64 * 64 * 64) (htotal : total children < capacity 32) :
    (Band.all.map (rules.partsOf m children)).sum < capacity 64 := by
  have h32 : capacity 32 = 2 ^ 32 := rfl
  have h64 : capacity 64 = 2 ^ 64 := rfl
  have hparts : ∀ b, rules.partsOf m children b ≤ children.get b * (64 * 64 * 64) := fun b =>
    Nat.le_trans (partsOf_le rules m children b) (Nat.mul_le_mul_left _ hm)
  have h₁ := hparts .underTwo
  have h₂ := hparts .twoYearOld
  have h₃ := hparts .threePlus
  unfold total at htotal
  simp only [ByBand.get] at h₁ h₂ h₃
  rw [sum_partsOf]
  omega

/-- As long as the sum of all parts fits, so does every product and every sum on the way. -/
theorem pooledParts_eq_ok {m : Nat}
    (hroom : (Band.all.map (rules.partsOf m children)).sum < capacity 64) :
    rules.pooledParts m children = .ok (Band.all.map (rules.partsOf m children)).sum := by
  have hband : ∀ b sum, sum + rules.partsOf m children b < capacity 64 →
      (do
        let parts ← Bounded.mul 64 (children.get b) (m / rules.pooledRatio b)
        Bounded.add 64 sum parts) = .ok (sum + rules.partsOf m children b) := by
    intro b sum hsum
    unfold partsOf at hsum ⊢
    rw [Bounded.mul_eq_ok (by omega), ok_bind, Bounded.add_eq_ok hsum]
  rw [sum_partsOf] at hroom ⊢
  unfold pooledParts Band.all
  rw [List.foldlM_cons, hband _ _ (by omega), ok_bind, List.foldlM_cons, hband _ _ (by omega),
    ok_bind, List.foldlM_cons, hband _ _ (by omega), ok_bind, Nat.zero_add]
  rfl

theorem sum_partsOf_div (hrules : rules.Accepted) {m : Nat} (hpos : 0 < m)
    (hdvd : ∀ b, rules.get b ∣ m) :
    ((Band.all.map (rules.partsOf m children)).sum : ℚ) / m =
      rules.share children .underTwo + rules.share children .twoYearOld +
        rules.share children .threePlus := by
  have hshare : ∀ b, (rules.partsOf m children b : ℚ) / m = rules.share children b := by
    intro b
    have hm : (m : ℚ) ≠ 0 := by exact_mod_cast hpos.ne'
    have hratio : (rules.get b : ℚ) ≠ 0 := by exact_mod_cast (hrules b).1.ne'
    unfold partsOf share
    rw [pooledRatio_eq hrules, Nat.cast_mul, Nat.cast_div (hdvd b) hratio]
    field_simp
  rw [sum_partsOf, ← hshare .underTwo, ← hshare .twoYearOld, ← hshare .threePlus, ← add_div,
    ← add_div]
  norm_cast

theorem ceilDiv_partsOf (hrules : rules.Accepted) {m : Nat} (hpos : 0 < m)
    (hdvd : ∀ b, rules.get b ∣ m) :
    Bounded.ceilDiv (Band.all.map (rules.partsOf m children)).sum m =
      .ok (rules.rounded .pooled children) := by
  rw [Bounded.ceilDiv_eq_ok hpos, sum_partsOf_div hrules hpos hdvd, rounded_pooled]

/-- The parts of the children are divided by the common multiple, and the quotient is the need. -/
theorem pooledQuotient_eq_ok (hrules : rules.Accepted) (htotal : total children < capacity 32) :
    ∃ multiple parts, rules.commonMultiple = .ok multiple ∧
      rules.pooledParts multiple children = .ok parts ∧
      Bounded.ceilDiv parts multiple = .ok (rules.rounded .pooled children) := by
  obtain ⟨m, hmultiple, hpos, hm, hdvd⟩ := commonMultiple_eq_ok hrules
  exact ⟨m, _, hmultiple, pooledParts_eq_ok (sum_partsOf_lt hm htotal),
    ceilDiv_partsOf hrules hpos hdvd⟩

theorem neededPooled_eq_ok (hrules : rules.Accepted) (htotal : total children < capacity 32) :
    rules.neededPooled children = .ok (rules.rounded .pooled children) := by
  obtain ⟨m, parts, hmultiple, hparts, hneed⟩ := pooledQuotient_eq_ok hrules htotal
  have hbound := rounded_le_total hrules .pooled children
  unfold neededPooled
  rw [hmultiple, ok_bind, hparts, ok_bind, hneed, ok_bind, Nat.mod_eq_of_lt (by omega)]
  rfl

/-- Accepted rules say for every group of fewer than `2 ^ 32` children what staff it needs: the sum
of its shares, rounded up as the policy says. -/
theorem staffNeeded_eq_ok (hrules : rules.Accepted) (policy : Policy)
    (htotal : total children < capacity 32) :
    rules.staffNeeded policy children = .ok (rules.rounded policy children) := by
  cases policy with
  | perBand => exact neededPerBand_eq_ok hrules htotal
  | pooled => exact neededPooled_eq_ok hrules htotal

theorem staffNeeded_succeeds (hrules : rules.Accepted) (policy : Policy)
    (htotal : total children < capacity 32) : Succeeds (rules.staffNeeded policy children) :=
  ⟨_, staffNeeded_eq_ok hrules policy htotal⟩

/-- Nobody needs no staff. -/
theorem staffNeeded_nobody (hrules : rules.Accepted) (policy : Policy) :
    rules.staffNeeded policy ⟨0, 0, 0⟩ = .ok 0 := by
  rw [staffNeeded_eq_ok hrules policy (show total ⟨0, 0, 0⟩ < _ from capacity_pos 32)]
  congr 1
  exact Nat.le_zero.mp (rounded_le_total hrules policy ⟨0, 0, 0⟩)

end Rules

end NurseryRota
