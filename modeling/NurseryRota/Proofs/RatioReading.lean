import Mathlib.Data.List.Induction
import NurseryRota.Proofs.JsonRecords
import NurseryRota.Staffing.RulesDocument

/-!
# Reading a ratio

A ratio is read from a numeral of digits alone, without a sign, a point or an exponent, and from no
other text.  There is one such numeral for every number, the one that it is written with, since a
numeral has no needless zero in front.
-/

namespace NurseryRota

/-! ## Whole numbers -/

theorem digitChar_of_isDigit {c : Char} (h : c.isDigit = true) :
    c.toNat - 48 < 10 ∧ Nat.digitChar (c.toNat - 48) = c := by
  have hrange : 48 ≤ c.toNat ∧ c.toNat ≤ 57 := Char.isDigit_iff_toNat.mp h
  refine ⟨by omega, ?_⟩
  apply Char.toNat_inj.mp
  rw [Nat.toNat_digitChar_of_lt_ten (by omega)]
  omega

theorem ofDecimal_append_singleton (ds : List Char) (c : Char) :
    ofDecimal (ds ++ [c]) = 10 * ofDecimal ds + (c.toNat - 48) := by
  rw [ofDecimal, List.map_append, List.map_singleton, ofDigits_append_singleton]
  rfl

/-- Digits without a needless zero in front are the ones that their number is written with. -/
theorem toDigits_ofDecimal {ds : List Char} (h : Json.Digits ds)
    (hzero : ds.head? = some '0' → ds = ['0']) :
    Nat.toDigits 10 (ofDecimal ds) = ds := by
  obtain ⟨hne, hall⟩ := h
  -- From the last digit, since a number is written by its quotients by ten.
  induction ds using List.reverseRecOn with
  | nil => exact absurd rfl hne
  | append_singleton ds c ih =>
      obtain ⟨hlt, hchar⟩ := digitChar_of_isDigit (hall c (by simp))
      rw [ofDecimal_append_singleton]
      by_cases hds : ds = []
      · subst hds
        rw [show ofDecimal [] = 0 from rfl, Nat.mul_zero, Nat.zero_add, Nat.toDigits_of_lt_base hlt,
          hchar]
        rfl
      · have hhead : ds.head? ≠ some '0' := by
          intro hhead
          have hsingle := hzero (by rw [List.head?_append_of_ne_nil _ hds, hhead])
          have hlength := congrArg List.length hsingle
          simp [hds] at hlength
        have hdigits := ih (fun h => absurd h hhead) hds fun d hd => hall d (by simp [hd])
        have hpos : 0 < ofDecimal ds := by
          refine Nat.pos_of_ne_zero ?_
          intro hvalue
          rw [hvalue] at hdigits
          exact hhead (by rw [← hdigits]; rfl)
        rw [← Nat.toDigits_append_toDigits (by decide) hpos hlt, hdigits, Nat.toDigits_of_lt_base hlt,
          hchar]

theorem le_foldl_digits (cs : List Char) (n : Nat) :
    n ≤ cs.foldl (fun n c => 10 * n + (c.toNat - '0'.toNat)) n := by
  induction cs generalizing n with
  | nil => exact Nat.le_refl n
  | cons c cs ih =>
      have hstep : n ≤ 10 * n + (c.toNat - '0'.toNat) := by omega
      exact Nat.le_trans hstep (ih _)

namespace Numeral

/-- Digits are taken to their end where the number that they make up stays below the limit. -/
theorem accumulate_eq_iff {limit n k : Nat} {cs : List Char} (hn : n < limit) :
    accumulate limit n cs = (k, []) ↔
      cs.foldl (fun n c => 10 * n + (c.toNat - '0'.toNat)) n = k ∧ k < limit := by
  induction cs generalizing n with
  | nil =>
      simp only [accumulate, List.foldl_nil, Prod.mk.injEq, and_true]
      constructor
      · rintro rfl
        exact ⟨rfl, hn⟩
      · exact And.left
  | cons c cs ih =>
      rw [accumulate, List.foldl_cons]
      split
      · next hnext => exact ih hnext
      · next hnext =>
          have hle := le_foldl_digits cs (10 * n + (c.toNat - '0'.toNat))
          refine iff_of_false (by simp) ?_
          rintro ⟨rfl, hlt⟩
          omega

theorem accumulate_eq_ofDecimal_iff {bits k : Nat} {cs : List Char} :
    accumulate (capacity bits) 0 cs = (k, []) ↔ ofDecimal cs = k ∧ k < capacity bits := by
  rw [accumulate_eq_iff (capacity_pos bits), ofDecimal, ofDigits, List.foldl_map]

theorem scale_ne_natural {negative : Bool} {significand k : Nat} {exponent : Int} :
    scale negative significand exponent ≠ .ok (.natural k) := by
  unfold scale
  dsimp only
  split
  · split <;> simp
  · simp

theorem withExponent_ne_natural {negative : Bool} {significand k : Nat} {shift : Int}
    {exponent : Option (Bool × List Char)} :
    withExponent negative significand shift exponent ≠ .ok (.natural k) := by
  unfold withExponent
  split
  · exact scale_ne_natural
  · split
    · exact scale_ne_natural
    · split <;> simp

theorem value_eq_ok_natural_iff {n : Numeral} {k : Nat} :
    n.value = .ok (.natural k) ↔ n.negative = false ∧ n.fraction = [] ∧ n.exponent = none ∧
      ofDecimal n.whole = k ∧ k < capacity 64 := by
  rw [← accumulate_eq_ofDecimal_iff]
  unfold value
  generalize accumulate (capacity 64) 0 n.whole = taken
  obtain ⟨significand, more⟩ := taken
  dsimp only
  split
  · next hinteger =>
      simp only [Bool.and_eq_true, decide_eq_true_eq] at hinteger
      obtain ⟨⟨hfraction, hexponent⟩, hmore⟩ := hinteger
      cases hnegative : n.negative with
      | false => simp [hfraction, hexponent, hmore]
      | true =>
          refine iff_of_false ?_ (by simp)
          simp only [Bool.not_true]
          split
          · next h => cases h
          · split <;> simp
  · next hinteger =>
      refine iff_of_false withExponent_ne_natural ?_
      rintro ⟨-, hfraction, hexponent, htaken⟩
      rw [Prod.mk.injEq] at htaken
      simp [hfraction, hexponent, htaken] at hinteger

/-- A numeral is valued at a natural number exactly if the number is written so. -/
theorem value_eq_natural_iff {cs : List Char} {n : Numeral} {k : Nat} (h : Json.SpellsNumeral cs n) :
    n.value = .ok (.natural k) ↔ Json.number n = Json.ofNat k ∧ k < capacity 64 := by
  obtain @⟨negative, whole, fraction, more, exponent, digits, zero, fractional, scaled⟩ := h
  have hwhole : ofDecimal whole = k ↔ whole = Nat.toDigits 10 k := by
    constructor
    · rintro rfl
      exact (toDigits_ofDecimal digits zero).symm
    · rintro rfl
      exact Json.ofDecimal_toDigits k
  have hsign : decide ((k : Int) < 0) = false := decide_eq_false (by omega)
  simp only [value_eq_ok_natural_iff, Json.ofNat, Json.ofInt, Json.number.injEq, Numeral.mk.injEq,
    Int.natAbs_natCast, hwhole, hsign]
  tauto

end Numeral

namespace RulesDocument

open Json

variable {cs rest : List Char} {k : Nat}

theorem lift_eq_ok_iff {α : Type} {r : Except JsonFault α} {a : α} : lift r = .ok a ↔ r = .ok a :=
  mapError_eq_ok_iff

theorem readNumber_eq_ok_iff {v : NumberValue} :
    readNumber cs = .ok (v, rest) ↔ ∃ n, readNumeral cs = .ok (n, rest) ∧ n.value = .ok v := by
  simp only [readNumber, bind_eq_ok_iff, lift_eq_ok_iff, Prod.exists]
  constructor
  · rintro ⟨n, after, hread, w, hvalue, h⟩
    obtain ⟨rfl, rfl⟩ := Prod.mk.inj (Except.ok.inj h)
    exact ⟨n, hread, hvalue⟩
  · rintro ⟨n, hread, hvalue⟩
    exact ⟨n, rest, hread, v, hvalue, rfl⟩

/-! ## Ratios -/

theorem denotes_of_readRatio (h : readRatio cs = .ok (k, rest)) :
    ∃ text, cs = text ++ rest ∧ Denotes text (ofNat k) := by
  unfold readRatio at h
  dsimp only at h
  split at h
  · cases h
  · next c tail hskip =>
      split at h
      · obtain ⟨⟨v, after⟩, hread, h⟩ := bind_eq_ok_iff.mp h
        obtain ⟨n, hnumeral, hvalue⟩ := readNumber_eq_ok_iff.mp hread
        obtain ⟨body, hbody, numeral⟩ := spellsNumeral_of_readNumeral hnumeral
        cases v with
        | natural m =>
            dsimp only at h
            split at h
            · obtain ⟨rfl, rfl⟩ := Prod.mk.inj (Except.ok.inj h)
              obtain ⟨hratio, -⟩ := (Numeral.value_eq_natural_iff numeral).mp hvalue
              exact denotes_of_skipBlanks hbody (hratio ▸ .number numeral)
            · cases h
        | negative m | double minus x => cases h
      · obtain ⟨found, -, h⟩ := bind_eq_ok_iff.mp h
        cases h

theorem readRatio_append {text : List Char} (h : Denotes text (ofNat k)) (hk : k < capacity 32)
    (rest : List Char) (hrest : EndsNumeral rest) :
    ∃ blanks, Blanks blanks ∧ readRatio (text ++ rest) = .ok (k, blanks ++ rest) := by
  generalize hratio : ofNat k = ratio at h
  obtain @⟨before, cs, after, _, opening, closing, spelled⟩ := h
  cases spelled with
  | number numeral =>
      obtain ⟨c, tail, hcs, hhead⟩ := numeral.head
      have hblank : isBlank c = false := by
        rcases hhead with rfl | hdigit
        · rfl
        · exact isBlank_eq_false_of_isDigit hdigit
      have hvalue := (Numeral.value_eq_natural_iff numeral).mpr
        ⟨hratio.symm, Nat.lt_of_lt_of_le hk (by decide)⟩
      have hread : readNumber (cs ++ (after ++ rest)) = .ok (.natural k, after ++ rest) :=
        readNumber_eq_ok_iff.mpr
          ⟨_, readNumeral_append numeral (endsNumeral_append closing hrest), hvalue⟩
      refine ⟨after, closing, ?_⟩
      have hskip : skipBlanks (before ++ cs ++ after ++ rest) = cs ++ (after ++ rest) := by
        rw [List.append_assoc, List.append_assoc, skipBlanks_append opening, hcs, List.cons_append,
          skipBlanks_cons hblank]
      unfold readRatio
      rw [hskip]
      subst hcs
      rw [List.cons_append] at hread ⊢
      dsimp only
      rw [if_pos (by simpa using hhead), hread, ok_bind]
      exact if_pos hk
  | null | bool | text | array | object | emptyArray | emptyObject => cases hratio

theorem readRatio_skipBlanks (cs : List Char) : readRatio (skipBlanks cs) = readRatio cs := by
  unfold readRatio
  rw [skipBlanks_skipBlanks]

theorem head_of_readRatio (h : readRatio cs = .ok (k, rest)) :
    ∃ c tail, skipBlanks cs = c :: tail ∧ c ≠ ']' := by
  obtain ⟨text, rfl, hdenotes⟩ := denotes_of_readRatio h
  obtain ⟨c, tail, hhead, hbracket, -⟩ := hdenotes.head
  exact ⟨c, _, hhead rest, hbracket⟩

end RulesDocument

end NurseryRota
