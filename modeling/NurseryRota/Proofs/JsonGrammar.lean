import Mathlib.Data.List.TakeWhile
import NurseryRota.Json.Parser
import NurseryRota.Proofs.Outcome

/-!
# The strings and numerals of JSON

What a string or a numeral says is defined here without a reader, by rules for its text.  A string
spells characters if its escapes do, and a numeral keeps its digits.  The readers are matched with the
rules from both sides: they take what the rules allow and leave what follows, and what they take is
allowed.
-/

namespace NurseryRota.Json

def Blanks (cs : List Char) : Prop := ∀ c ∈ cs, isBlank c = true

/-! ## Strings -/

/-- The characters may stand between the quotes of a string. -/
inductive Escaped : List Char → Prop
  | nil : Escaped []
  | plain {c : Char} {cs : List Char} (quote : c ≠ '"') (escape : c ≠ '\\') (control : 0x20 ≤ c.toNat)
      (rest : Escaped cs) : Escaped (c :: cs)
  | short {c : Char} {cs : List Char} (known : (shortEscape? c).isSome = true) (rest : Escaped cs) :
      Escaped ('\\' :: c :: cs)
  | unit {a b c d : Char} {cs : List Char} (hex : (codeUnit? a b c d).isSome = true)
      (rest : Escaped cs) : Escaped ('\\' :: 'u' :: a :: b :: c :: d :: cs)

/-- Between the quotes of a string the first characters spell the second ones.  A code unit is one of
its own, or two of them make up a pair. -/
inductive Spells : List Char → List Char → Prop
  | nil : Spells [] []
  | plain {c : Char} {cs s : List Char} (quote : c ≠ '"') (escape : c ≠ '\\')
      (control : 0x20 ≤ c.toNat) (rest : Spells cs s) : Spells (c :: cs) (c :: s)
  | short {c e : Char} {cs s : List Char} (known : shortEscape? c = some e) (rest : Spells cs s) :
      Spells ('\\' :: c :: cs) (e :: s)
  | unit {a b c d : Char} {n : Nat} {cs s : List Char} (hex : codeUnit? a b c d = some n)
      (leading : isLeading n = false) (trailing : isTrailing n = false) (rest : Spells cs s) :
      Spells ('\\' :: 'u' :: a :: b :: c :: d :: cs) (Char.ofNat n :: s)
  | pair {a b c d e f g h : Char} {n m : Nat} {cs s : List Char} (first : codeUnit? a b c d = some n)
      (leading : isLeading n = true) (second : codeUnit? e f g h = some m)
      (trailing : isTrailing m = true) (rest : Spells cs s) :
      Spells ('\\' :: 'u' :: a :: b :: c :: d :: '\\' :: 'u' :: e :: f :: g :: h :: cs)
        (Json.pair n m :: s)

/-- What the characters between quotes denote: the characters they spell, if they spell any. -/
inductive SpellsText : List Char → JsonText → Prop
  | chars {cs s : List Char} (spelled : Spells cs s) : SpellsText cs (some s)
  | unpaired {cs : List Char} (escaped : Escaped cs) (nothing : ∀ s, ¬ Spells cs s) :
      SpellsText cs none

variable {cs rest s : List Char}

theorem isTrailing_of_isLeading {n : Nat} (h : isLeading n = true) : isTrailing n = false := by
  simp only [isLeading, isTrailing, Bool.and_eq_true, decide_eq_true_eq, Bool.and_eq_false_iff,
    decide_eq_false_iff_not] at h ⊢
  omega

theorem Spells.escaped (h : Spells cs s) : Escaped cs := by
  induction h with
  | nil => exact .nil
  | plain quote escape control rest ih => exact .plain quote escape control ih
  | short known rest ih => exact .short (by rw [known]; rfl) ih
  | unit hex leading trailing rest ih => exact .unit (by rw [hex]; rfl) ih
  | pair first leading second trailing rest ih =>
      exact .unit (by rw [first]; rfl) (.unit (by rw [second]; rfl) ih)

theorem SpellsText.escaped {t : JsonText} (h : SpellsText cs t) : Escaped cs := by
  cases h with
  | chars spelled => exact spelled.escaped
  | unpaired escaped nothing => exact escaped

theorem skipText_append (h : Escaped cs) (rest : List Char) :
    skipText (cs ++ '"' :: rest) = .ok rest := by
  induction h with
  | nil => rfl
  | plain quote escape control _ ih => simp [skipText, escape, control, ih]
  | @short c cs known _ ih =>
      have hc : c ≠ 'u' := by
        rintro rfl
        cases known
      simp [skipText, hc, known, ih]
  | unit hex _ ih => simp [skipText, hex, ih]

theorem ne_of_forall_cons {c d : Char} {cs : List Char} (hnil : c = d → cs = [] → False)
    (hcons : ∀ e tail, c = d → cs = e :: tail → False) : c ≠ d := by
  intro hc
  cases cs with
  | nil => exact hnil hc rfl
  | cons e tail => exact hcons e tail hc rfl

theorem escaped_of_skipText (h : skipText cs = .ok rest) :
    ∃ body, cs = body ++ '"' :: rest ∧ Escaped body := by
  fun_induction skipText cs with
  | case1 | case4 | case5 | case7 | case8 | case9 => cases h
  | case2 tail =>
      cases h
      exact ⟨[], rfl, .nil⟩
  | case3 a b c d tail hex ih =>
      obtain ⟨body, rfl, hbody⟩ := ih h
      exact ⟨_, rfl, .unit hex hbody⟩
  | case6 c tail _ _ known ih =>
      obtain ⟨body, rfl, hbody⟩ := ih h
      exact ⟨_, rfl, .short known hbody⟩
  | case10 c tail quote _ _ hcons hnil control ih =>
      obtain ⟨body, rfl, hbody⟩ := ih h
      exact ⟨_, rfl, .plain quote (ne_of_forall_cons hnil hcons) (Nat.le_of_not_lt control) hbody⟩

theorem consText_eq_ok_iff {c : Char} {r : Except JsonFault (List Char × List Char)} :
    consText c r = .ok (s, rest) ↔ ∃ tail, r = .ok (tail, rest) ∧ s = c :: tail := by
  cases r with
  | error fault => simp [consText, Except.map]
  | ok read =>
      obtain ⟨tail, after⟩ := read
      simp only [consText, Except.map, Except.ok.injEq, Prod.mk.injEq]
      constructor
      · rintro ⟨rfl, rfl⟩
        exact ⟨tail, ⟨rfl, rfl⟩, rfl⟩
      · rintro ⟨_, ⟨rfl, rfl⟩, rfl⟩
        exact ⟨rfl, rfl⟩

theorem readText_append (h : Spells cs s) (rest : List Char) :
    readText (cs ++ '"' :: rest) = .ok (s, rest) := by
  induction h with
  | nil => rfl
  | plain quote escape control _ ih =>
      simp [readText, escape, control, ih, consText, Except.map]
  | @short c e cs s known _ ih =>
      have hc : c ≠ 'u' := by
        rintro rfl
        cases known
      simp [readText, hc, known, ih, consText, Except.map]
  | unit hex leading trailing _ ih =>
      simp [readText, hex, leading, trailing, ih, consText, Except.map]
  | pair first leading second trailing _ ih =>
      simp [readText, first, leading, second, trailing, isTrailing_of_isLeading leading, ih, consText,
        Except.map]

theorem spells_of_readText (h : readText cs = .ok (s, rest)) :
    ∃ body, cs = body ++ '"' :: rest ∧ Spells body s := by
  fun_induction readText cs generalizing s with
  | case1 | case3 | case4 | case5 | case7 | case8 | case10 | case11 | case13 | case14 => cases h
  | case2 tail =>
      cases h
      exact ⟨[], rfl, .nil⟩
  | case6 a b c d n first _ leading e f g k tail m second trailing ih =>
      obtain ⟨s, hread, rfl⟩ := consText_eq_ok_iff.mp h
      obtain ⟨body, rfl, hbody⟩ := ih hread
      exact ⟨_, rfl, .pair first leading second trailing hbody⟩
  | case9 a b c d tail n hex trailing leading ih =>
      obtain ⟨s, hread, rfl⟩ := consText_eq_ok_iff.mp h
      obtain ⟨body, rfl, hbody⟩ := ih hread
      exact ⟨_, rfl, .unit hex (eq_false_of_ne_true leading) (eq_false_of_ne_true trailing) hbody⟩
  | case12 c tail _ _ e known ih =>
      obtain ⟨s, hread, rfl⟩ := consText_eq_ok_iff.mp h
      obtain ⟨body, rfl, hbody⟩ := ih hread
      exact ⟨_, rfl, .short known hbody⟩
  | case15 c tail quote _ _ hcons hnil control ih =>
      obtain ⟨s, hread, rfl⟩ := consText_eq_ok_iff.mp h
      obtain ⟨body, rfl, hbody⟩ := ih hread
      exact ⟨_, rfl, .plain quote (ne_of_forall_cons hnil hcons) (Nat.le_of_not_lt control) hbody⟩

/-- A string is read as what it spells, also where it spells nothing. -/
theorem readJsonText_append {t : JsonText} (h : SpellsText cs t) (rest : List Char) :
    readJsonText (cs ++ '"' :: rest) = .ok (t, rest) := by
  unfold readJsonText
  rw [skipText_append h.escaped, ok_bind]
  cases h with
  | chars spelled =>
      rw [readText_append spelled]
      rfl
  | unpaired escaped nothing =>
      cases hread : readText (cs ++ '"' :: rest) with
      | error fault => rfl
      | ok read =>
          obtain ⟨body, hcs, hbody⟩ := spells_of_readText hread
          have hskip := skipText_append hbody.escaped read.2
          rw [← hcs, skipText_append escaped, Except.ok.injEq] at hskip
          rw [hskip] at hcs
          exact absurd (List.append_cancel_right hcs ▸ hbody) (nothing read.1)

theorem spellsText_of_readJsonText {t : JsonText} (h : readJsonText cs = .ok (t, rest)) :
    ∃ body, cs = body ++ '"' :: rest ∧ SpellsText body t := by
  unfold readJsonText at h
  obtain ⟨after, hskip, h⟩ := bind_eq_ok_iff.mp h
  obtain ⟨body, rfl, hbody⟩ := escaped_of_skipText hskip
  obtain ⟨ht, rfl⟩ := Prod.mk.inj (Except.ok.inj h)
  refine ⟨body, rfl, ?_⟩
  by_cases hspelled : ∃ s, Spells body s
  · obtain ⟨s, hs⟩ := hspelled
    rw [readText_append hs] at ht
    exact ht ▸ .chars hs
  · have hnothing : SpellsText body none := .unpaired hbody fun s hs => hspelled ⟨s, hs⟩
    have hread := readJsonText_append hnothing after
    unfold readJsonText at hread
    rw [skipText_append hbody, ok_bind] at hread
    obtain ⟨hnone, -⟩ := Prod.mk.inj (Except.ok.inj hread)
    rw [← ht, hnone]
    exact hnothing

/-! ## Numerals -/

/-- At least one decimal digit, and nothing else. -/
def Digits (cs : List Char) : Prop := cs ≠ [] ∧ ∀ c ∈ cs, c.isDigit = true

inductive SpellsExponent : List Char → Option (Bool × List Char) → Prop
  | absent : SpellsExponent [] none
  | bare {e : Char} {ds : List Char} (mark : e = 'e' ∨ e = 'E') (digits : Digits ds) :
      SpellsExponent (e :: ds) (some (false, ds))
  | plus {e : Char} {ds : List Char} (mark : e = 'e' ∨ e = 'E') (digits : Digits ds) :
      SpellsExponent (e :: '+' :: ds) (some (false, ds))
  | minus {e : Char} {ds : List Char} (mark : e = 'e' ∨ e = 'E') (digits : Digits ds) :
      SpellsExponent (e :: '-' :: ds) (some (true, ds))

/-- The text of a numeral is its sign, its digits with a point before the fraction, if there is one,
and its exponent.  A zero at the front stands alone before the point. -/
inductive SpellsNumeral : List Char → Numeral → Prop
  | mk {negative : Bool} {whole fraction more : List Char} {exponent : Option (Bool × List Char)}
      (digits : Digits whole) (zero : whole.head? = some '0' → whole = ['0'])
      (fractional : ∀ c ∈ fraction, c.isDigit = true) (scaled : SpellsExponent more exponent) :
      SpellsNumeral
        ((if negative then ['-'] else []) ++ whole ++
          (if fraction = [] then [] else '.' :: fraction) ++ more)
        ⟨negative, whole, fraction, exponent⟩

/-- A numeral in front of these characters ends there: none of them could go on with it. -/
def EndsNumeral (cs : List Char) : Prop :=
  ∀ c ∈ cs.head?, c.isDigit = false ∧ c ≠ '.' ∧ c ≠ 'e' ∧ c ≠ 'E'

theorem readDigits_append {ds : List Char} (hds : Digits ds)
    (hrest : ∀ c ∈ rest.head?, c.isDigit = false) : readDigits (ds ++ rest) = .ok (ds, rest) := by
  have htake : (ds ++ rest).takeWhile Char.isDigit = ds := by
    rw [List.takeWhile_append_of_pos hds.2]
    cases rest with
    | nil => simp
    | cons c rest => simp [hrest c rfl]
  have hdrop : (ds ++ rest).dropWhile Char.isDigit = rest := by
    rw [List.dropWhile_append_of_pos hds.2]
    cases rest with
    | nil => rfl
    | cons c rest => simp [hrest c rfl]
  unfold readDigits
  rw [htake, hdrop]
  cases ds with
  | nil => exact absurd rfl hds.1
  | cons d ds => rfl

theorem digits_of_readDigits {ds : List Char} (h : readDigits cs = .ok (ds, rest)) :
    cs = ds ++ rest ∧ Digits ds := by
  unfold readDigits at h
  split at h
  · cases h
  · next hne =>
      obtain ⟨rfl, rfl⟩ := Prod.mk.inj (Except.ok.inj h)
      refine ⟨List.takeWhile_append_dropWhile.symm, hne, ?_⟩
      intro c hc
      exact List.mem_takeWhile_imp hc

theorem readWhole_append {whole : List Char} (digits : Digits whole)
    (zero : whole.head? = some '0' → whole = ['0']) (hrest : ∀ c ∈ rest.head?, c.isDigit = false) :
    readWhole (whole ++ rest) = .ok (whole, rest) := by
  have hzero : ¬ (whole.head? = some '0' && whole.length ≠ 1) = true := by
    intro h
    simp only [Bool.and_eq_true, decide_eq_true_eq] at h
    exact h.2 (by rw [zero h.1]; rfl)
  unfold readWhole
  rw [readDigits_append digits hrest, ok_bind]
  simp only [hzero]
  rfl

theorem digits_of_readWhole {whole : List Char} (h : readWhole cs = .ok (whole, rest)) :
    cs = whole ++ rest ∧ Digits whole ∧ (whole.head? = some '0' → whole = ['0']) := by
  unfold readWhole at h
  obtain ⟨⟨ds, after⟩, hread, h⟩ := bind_eq_ok_iff.mp h
  dsimp only at h
  split at h
  · cases h
  · next hzero =>
      obtain ⟨rfl, rfl⟩ := Prod.mk.inj (Except.ok.inj h)
      obtain ⟨hcs, hds⟩ := digits_of_readDigits hread
      refine ⟨hcs, hds, ?_⟩
      intro hhead
      have hlength : ds.length = 1 := by
        simpa [hhead] using hzero
      obtain ⟨d, rfl⟩ := List.length_eq_one_iff.mp hlength
      exact congrArg ([·]) (Option.some.inj hhead)

theorem readFraction_append {fraction : List Char} (digits : ∀ c ∈ fraction, c.isDigit = true)
    (hrest : ∀ c ∈ rest.head?, c.isDigit = false ∧ c ≠ '.') :
    readFraction ((if fraction = [] then [] else '.' :: fraction) ++ rest) =
      .ok (fraction, rest) := by
  by_cases hfraction : fraction = []
  · subst hfraction
    cases rest with
    | nil => rfl
    | cons c rest =>
        have hpoint : c ≠ '.' := (hrest c rfl).2
        simp [readFraction, hpoint]
  · rw [if_neg hfraction]
    exact readDigits_append ⟨hfraction, digits⟩ fun c hc => (hrest c hc).1

theorem digits_of_readFraction {fraction : List Char} (h : readFraction cs = .ok (fraction, rest)) :
    cs = (if fraction = [] then [] else '.' :: fraction) ++ rest ∧
      ∀ c ∈ fraction, c.isDigit = true := by
  unfold readFraction at h
  split at h
  · next after =>
      obtain ⟨rfl, hne, hdigits⟩ := digits_of_readDigits h
      exact ⟨by simp [hne], hdigits⟩
  · obtain ⟨rfl, rfl⟩ := Prod.mk.inj (Except.ok.inj h)
    exact ⟨rfl, by simp⟩

theorem readExponent_append {more : List Char} {exponent : Option (Bool × List Char)}
    (h : SpellsExponent more exponent) (hrest : EndsNumeral rest) :
    readExponent (more ++ rest) = .ok (exponent, rest) := by
  have hdigit : ∀ c ∈ rest.head?, c.isDigit = false := fun c hc => (hrest c hc).1
  cases h with
  | absent =>
      cases rest with
      | nil => rfl
      | cons c rest =>
          obtain ⟨-, -, he, hE⟩ := hrest c rfl
          simp [readExponent, he, hE]
  | @bare e ds mark digits =>
      have hread := readDigits_append digits hdigit
      obtain ⟨hne, hall⟩ := digits
      cases ds with
      | nil => exact absurd rfl hne
      | cons d ds =>
          have hd : d.isDigit = true := hall d (by simp)
          have hminus : d ≠ '-' := by
            rintro rfl
            cases hd
          have hplus : d ≠ '+' := by
            rintro rfl
            cases hd
          rw [List.cons_append] at hread
          simp [readExponent, mark, hminus, hplus, hread, Except.map]
  | plus mark digits =>
      simp [readExponent, mark, readDigits_append digits hdigit, Except.map]
  | minus mark digits =>
      simp [readExponent, mark, readDigits_append digits hdigit, Except.map]

theorem spellsExponent_of_readExponent {exponent : Option (Bool × List Char)}
    (h : readExponent cs = .ok (exponent, rest)) :
    ∃ more, cs = more ++ rest ∧ SpellsExponent more exponent := by
  unfold readExponent at h
  split at h
  · obtain ⟨rfl, rfl⟩ := Prod.mk.inj (Except.ok.inj h)
    exact ⟨[], rfl, .absent⟩
  · next e tail =>
      split at h
      · next mark =>
          simp only [Bool.or_eq_true, decide_eq_true_eq] at mark
          obtain ⟨⟨ds, after⟩, hread, h⟩ := map_eq_ok_iff.mp h
          obtain ⟨rfl, rfl⟩ := Prod.mk.inj h
          obtain ⟨htail, digits⟩ := digits_of_readDigits hread
          rcases tail with _ | ⟨sign, tail⟩
          · exact ⟨e :: ds, by simpa using htail, .bare mark digits⟩
          · by_cases hminus : sign = '-'
            · subst hminus
              exact ⟨e :: '-' :: ds, by simpa using htail, .minus mark digits⟩
            · by_cases hplus : sign = '+'
              · subst hplus
                exact ⟨e :: '+' :: ds, by simpa using htail, .plus mark digits⟩
              · simp only [List.head?_cons, Option.some.injEq, hminus, hplus] at htail ⊢
                exact ⟨e :: ds, by simpa using htail, .bare mark digits⟩
      · obtain ⟨rfl, rfl⟩ := Prod.mk.inj (Except.ok.inj h)
        exact ⟨[], rfl, .absent⟩

theorem SpellsExponent.head_append {more : List Char} {exponent : Option (Bool × List Char)}
    (h : SpellsExponent more exponent) (hrest : EndsNumeral rest) :
    ∀ c ∈ (more ++ rest).head?, c.isDigit = false ∧ c ≠ '.' := by
  intro c hc
  cases h with
  | absent =>
      obtain ⟨hdigit, hpoint, -⟩ := hrest c hc
      exact ⟨hdigit, hpoint⟩
  | bare mark digits | plus mark digits | minus mark digits =>
      obtain rfl := Option.some.inj hc
      rcases mark with rfl | rfl <;> decide

theorem head_fraction_append (fraction : List Char) (hrest : ∀ c ∈ rest.head?, c.isDigit = false) :
    ∀ c ∈ ((if fraction = [] then [] else '.' :: fraction) ++ rest).head?, c.isDigit = false := by
  intro c hc
  split at hc
  · exact hrest c hc
  · obtain rfl := Option.some.inj hc
    rfl

/-- A numeral is read to its end, and no further. -/
theorem readNumeral_append {n : Numeral} (h : SpellsNumeral cs n) (hrest : EndsNumeral rest) :
    readNumeral (cs ++ rest) = .ok (n, rest) := by
  obtain @⟨negative, whole, fraction, more, exponent, digits, zero, fractional, scaled⟩ := h
  have hmore := scaled.head_append hrest
  have hfraction := readFraction_append fractional hmore
  have hwhole := readWhole_append digits zero
    (head_fraction_append fraction fun c hc => (hmore c hc).1)
  have hsign : ∀ tail, (whole ++ tail).head? ≠ some '-' := by
    obtain ⟨hne, hall⟩ := digits
    cases whole with
    | nil => exact absurd rfl hne
    | cons d ds =>
        rintro tail ⟨⟩
        cases hall '-' (by simp)
  simp only [List.append_assoc]
  generalize (if fraction = [] then [] else '.' :: fraction) ++ (more ++ rest) = tail at *
  generalize hsigned : (if negative then ['-'] else []) ++ (whole ++ tail) = signed
  have hnegative : decide (signed.head? = some '-') = negative := by
    cases negative with
    | true => exact hsigned ▸ rfl
    | false => exact hsigned ▸ decide_eq_false (hsign tail)
  have hunsigned : (if signed.head? = some '-' then signed.drop 1 else signed) = whole ++ tail := by
    cases negative with
    | true => exact hsigned ▸ rfl
    | false => exact hsigned ▸ if_neg (hsign tail)
  unfold readNumeral
  simp only [hunsigned, hnegative, hwhole, ok_bind, hfraction,
    readExponent_append scaled hrest]
  rfl

theorem spellsNumeral_of_readNumeral {n : Numeral} (h : readNumeral cs = .ok (n, rest)) :
    ∃ body, cs = body ++ rest ∧ SpellsNumeral body n := by
  unfold readNumeral at h
  obtain ⟨⟨whole, fromWhole⟩, hwhole, h⟩ := bind_eq_ok_iff.mp h
  obtain ⟨⟨fraction, fromFraction⟩, hfraction, h⟩ := bind_eq_ok_iff.mp h
  obtain ⟨⟨exponent, after⟩, hexponent, h⟩ := bind_eq_ok_iff.mp h
  obtain ⟨rfl, rfl⟩ := Prod.mk.inj (Except.ok.inj h)
  obtain ⟨hcs, digits, zero⟩ := digits_of_readWhole hwhole
  obtain ⟨rfl, fractional⟩ := digits_of_readFraction hfraction
  obtain ⟨more, rfl, scaled⟩ := spellsExponent_of_readExponent hexponent
  refine ⟨_, ?_, .mk digits zero fractional scaled⟩
  by_cases hminus : cs.head? = some '-'
  · obtain ⟨tail, rfl⟩ := List.head?_eq_some_iff.mp hminus
    simpa using hcs
  · simpa [hminus] using hcs

end NurseryRota.Json
