import Mathlib.Data.List.Perm.Basic
import NurseryRota.Proofs.CommandRuns
import NurseryRota.Proofs.RatioReading

/-!
# The documents that are rules

A document says what the rules are in an object of the bands, in any order, or in an array of the
ratios in the order of the bands.  The reader goes through the text once and remembers the ratios that
it has seen.  What it has seen and the bands still to come make up the rules, and so it ends with rules
exactly where every band has come once and nothing else has.
-/

namespace NurseryRota

namespace RulesDocument

open Json

variable {cs rest : List Char} {k : Nat}

/-! ## Arrays -/

theorem readItem_zero_eq_ok_iff : readItem 0 cs = .ok (k, rest) ↔ readRatio cs = .ok (k, rest) := by
  unfold readItem readItemStart
  constructor
  · intro h
    obtain ⟨start, hstart, hread⟩ := bind_eq_ok_iff.mp h
    split at hstart
    · cases hstart
    · cases hstart
    · next hskip =>
        obtain rfl := Except.ok.inj hstart
        rwa [← hskip, readRatio_skipBlanks] at hread
  · intro hread
    obtain ⟨c, tail, hskip, hbracket⟩ := head_of_readRatio hread
    refine bind_eq_ok_iff.mpr ⟨c :: tail, ?_, ?_⟩
    · rw [hskip]
      simp
    · rwa [← hskip, readRatio_skipBlanks]

theorem readItem_succ_eq_ok_iff {before : Nat} :
    readItem (before + 1) cs = .ok (k, rest) ↔
      ∃ next, skipBlanks cs = ',' :: next ∧ readRatio next = .ok (k, rest) := by
  unfold readItem readItemStart
  constructor
  · intro h
    obtain ⟨start, hstart, hread⟩ := bind_eq_ok_iff.mp h
    split at hstart
    · cases hstart
    · cases hstart
    · next c next _ hskip =>
        rw [if_neg (Nat.succ_ne_zero before)] at hstart
        split at hstart
        · next hcomma =>
            subst hcomma
            refine ⟨next, hskip, ?_⟩
            split at hstart
            · cases hstart
            · cases hstart
            · obtain rfl := Except.ok.inj hstart
              rwa [readRatio_skipBlanks] at hread
        · cases hstart
  · rintro ⟨next, hskip, hread⟩
    obtain ⟨c, tail, hnext, hbracket⟩ := head_of_readRatio hread
    refine bind_eq_ok_iff.mpr ⟨c :: tail, ?_, ?_⟩
    · rw [hskip]
      simp [hnext, hbracket]
    · rwa [← hnext, readRatio_skipBlanks]

theorem readItemsEnd_eq_ok_iff : readItemsEnd cs = .ok rest ↔ skipBlanks cs = ']' :: rest := by
  unfold readItemsEnd
  split
  · next hskip => simp [hskip]
  · next hskip => simp [hskip]
  · next hskip =>
      rw [hskip]
      split <;> simp
  · next hbracket _ =>
      refine iff_of_false (by simp) ?_
      exact hbracket _

theorem readItems_eq_ok_iff {r : Rules} :
    readItems cs = .ok (r, rest) ↔
      ∃ first afterFirst second afterSecond last,
        readRatio cs = .ok (r.underTwo, first) ∧
        skipBlanks first = ',' :: afterFirst ∧ readRatio afterFirst = .ok (r.twoYearOld, second) ∧
        skipBlanks second = ',' :: afterSecond ∧ readRatio afterSecond = .ok (r.threePlus, last) ∧
        skipBlanks last = ']' :: rest := by
  simp only [readItems, bind_eq_ok_iff, Prod.exists, readItem_zero_eq_ok_iff, readItem_succ_eq_ok_iff,
    readItemsEnd_eq_ok_iff]
  constructor
  · rintro ⟨u, first, hu, t, second, ⟨afterFirst, hfirst, ht⟩, p, last, ⟨afterSecond, hsecond, hp⟩,
      after, hlast, h⟩
    obtain ⟨rfl, rfl⟩ := Prod.mk.inj (Except.ok.inj h)
    exact ⟨first, afterFirst, second, afterSecond, last, hu, hfirst, ht, hsecond, hp, hlast⟩
  · rintro ⟨first, afterFirst, second, afterSecond, last, hu, hfirst, ht, hsecond, hp, hlast⟩
    exact ⟨_, first, hu, _, second, ⟨afterFirst, hfirst, ht⟩, _, last, ⟨afterSecond, hsecond, hp⟩,
      rest, hlast, rfl⟩

theorem denotes_of_readItems {r : Rules} (h : readItems cs = .ok (r, rest)) :
    ∃ items : List (List Char × Json), items.map Prod.snd = r.toList.map ofNat ∧
      (∀ i ∈ items, Denotes i.1 i.2) ∧ cs = listed (items.map Prod.fst) ++ ']' :: rest := by
  obtain ⟨first, afterFirst, second, afterSecond, last, hu, hfirst, ht, hsecond, hp, hlast⟩ :=
    readItems_eq_ok_iff.mp h
  obtain ⟨one, rfl, hone⟩ := denotes_of_readRatio hu
  obtain ⟨two, rfl, htwo⟩ := denotes_of_readRatio ht
  obtain ⟨three, rfl, hthree⟩ := denotes_of_readRatio hp
  obtain ⟨blanks₁, hblanks₁, rfl⟩ := exists_blanks hfirst
  obtain ⟨blanks₂, hblanks₂, rfl⟩ := exists_blanks hsecond
  obtain ⟨blanks₃, hblanks₃, rfl⟩ := exists_blanks hlast
  refine ⟨[(one ++ blanks₁, ofNat r.underTwo), (two ++ blanks₂, ofNat r.twoYearOld),
    (three ++ blanks₃, ofNat r.threePlus)], rfl, ?_, by simp⟩
  simp [hone.append hblanks₁, htwo.append hblanks₂, hthree.append hblanks₃]

theorem lt_capacity_of_accepted {r : Rules} (hr : r.Accepted) (b : Band) : r.get b < capacity 32 :=
  Nat.lt_of_le_of_lt (hr b).2 (by decide)

theorem readItems_append {r : Rules} (hr : r.Accepted) {items : List (List Char × Json)}
    (hitems : items.map Prod.snd = r.toList.map ofNat) (hdenotes : ∀ i ∈ items, Denotes i.1 i.2)
    (rest : List Char) :
    readItems (listed (items.map Prod.fst) ++ ']' :: rest) = .ok (r, rest) := by
  match items with
  | [(one, _), (two, _), (three, _)] =>
      simp only [List.map_cons, List.map_nil, ByBand.toList, Band.all, ByBand.get, List.cons.injEq,
        and_true] at hitems
      obtain ⟨rfl, rfl, rfl⟩ := hitems
      simp only [List.forall_mem_cons] at hdenotes
      obtain ⟨hone, htwo, hthree, -⟩ := hdenotes
      obtain ⟨blanks₁, hblanks₁, hu⟩ := readRatio_append hone (lt_capacity_of_accepted hr .underTwo)
        (',' :: (two ++ ',' :: (three ++ ']' :: rest))) (by simp [EndsNumeral])
      obtain ⟨blanks₂, hblanks₂, ht⟩ :=
        readRatio_append htwo (lt_capacity_of_accepted hr .twoYearOld)
        (',' :: (three ++ ']' :: rest)) (by simp [EndsNumeral])
      obtain ⟨blanks₃, hblanks₃, hp⟩ :=
        readRatio_append hthree (lt_capacity_of_accepted hr .threePlus)
        (']' :: rest) (by simp [EndsNumeral])
      refine readItems_eq_ok_iff.mpr ⟨_, _, _, _, _, ?_, skipBlanks_append_cons hblanks₁ rfl _, ht,
        skipBlanks_append_cons hblanks₂ rfl _, hp, skipBlanks_append_cons hblanks₃ rfl _⟩
      simpa using hu

/-! ## Objects -/

/-- The fields of the bands, with the ratios that the rules give them. -/
def entries (r : Rules) (bands : List Band) : List (JsonText × Json) :=
  bands.map fun b => (some b.name.toList, ofNat (r.get b))

/-- With the ratios of the bands to come the ones seen make up the rules. -/
structure Fills (seen : Seen) (bands : List Band) (r : Rules) : Prop where
  nodup : bands.Nodup
  missing : ∀ b, b ∈ bands ↔ seen.get b = none
  kept : ∀ b k, seen.get b = some k → r.get b = k

variable {seen : Seen} {bands : List Band} {r : Rules} {b : Band}

theorem complete_eq_ok_iff : complete seen = .ok r ↔ ∀ b, seen.get b = some (r.get b) := by
  obtain ⟨u, t, p⟩ := seen
  obtain ⟨u', t', p'⟩ := r
  have hbands : (∀ b : Band, ByBand.get ⟨u, t, p⟩ b = some (ByBand.get ⟨u', t', p'⟩ b)) ↔
      u = some u' ∧ t = some t' ∧ p = some p' :=
    ⟨fun h => ⟨h .underTwo, h .twoYearOld, h .threePlus⟩, fun ⟨hu, ht, hp⟩ b => by
      cases b <;> assumption⟩
  rw [hbands]
  cases u <;> cases t <;> cases p <;> simp [complete]

theorem fills_nil_iff : Fills seen [] r ↔ complete seen = .ok r := by
  rw [complete_eq_ok_iff]
  constructor
  · intro h b
    cases hseen : seen.get b with
    | none => exact absurd ((h.missing b).mpr hseen) List.not_mem_nil
    | some k => rw [h.kept b k hseen]
  · intro h
    refine ⟨List.nodup_nil, fun b => by simp [h b], ?_⟩
    intro b k hk
    exact Option.some.inj ((h b).symm.trans hk)

theorem fills_cons_iff :
    Fills seen (b :: bands) r ↔ seen.get b = none ∧ Fills (seen.set b (some (r.get b))) bands r := by
  constructor
  · intro h
    obtain ⟨hnotMem, hnodup⟩ := List.nodup_cons.mp h.nodup
    refine ⟨(h.missing b).mp List.mem_cons_self, hnodup, ?_, ?_⟩
    · intro c
      have hc := h.missing c
      rw [ByBand.get_set]
      split
      · next heq => simp [heq, hnotMem]
      · next hne => simpa [hne] using hc
    · intro c k hk
      rw [ByBand.get_set] at hk
      split at hk
      · next heq => exact heq ▸ Option.some.inj hk
      · exact h.kept c k hk
  · rintro ⟨hnone, h⟩
    have hnotMem : b ∉ bands := by
      rw [h.missing b, ByBand.get_set, if_pos rfl]
      exact Option.some_ne_none _
    refine ⟨List.nodup_cons.mpr ⟨hnotMem, h.nodup⟩, ?_, ?_⟩
    · intro c
      have hc := h.missing c
      rw [ByBand.get_set] at hc
      by_cases heq : c = b
      · simp [heq, hnone]
      · simpa [heq] using hc
    · intro c k hk
      refine h.kept c k ?_
      have hne : c ≠ b := by
        rintro rfl
        rw [hnone] at hk
        cases hk
      rwa [ByBand.get_set, if_neg hne]

theorem fills_empty_iff : Fills ⟨none, none, none⟩ bands r ↔ bands.Perm Band.all := by
  have hnone : ∀ b, ByBand.get (⟨none, none, none⟩ : Seen) b = none := by
    intro b
    cases b <;> rfl
  have hall : ∀ b, b ∈ Band.all := by
    intro b
    cases b <;> decide
  constructor
  · intro h
    rw [List.perm_ext_iff_of_nodup h.nodup (by decide)]
    exact fun b => iff_of_true ((h.missing b).mpr (hnone b)) (hall b)
  · intro h
    refine ⟨h.nodup_iff.mpr (by decide), fun b => iff_of_true (h.mem_iff.mpr (hall b)) (hnone b), ?_⟩
    intro b k hk
    rw [hnone] at hk
    cases hk

theorem ofName_eq_ok_iff {s : String} : Band.ofName s = .ok b ↔ s = b.name := by
  constructor
  · intro h
    unfold Band.ofName at h
    split at h
    · next found hfound =>
        obtain rfl := Except.ok.inj h
        have hname := List.find?_some hfound
        simp only [decide_eq_true_eq] at hname
        exact hname.symm
    · cases h
  · rintro rfl
    exact Band.ofName_name b

theorem readBand_eq_ok_iff :
    readBand seen cs = .ok (b, rest) ↔
      readText cs = .ok (b.name.toList, rest) ∧ seen.get b = none := by
  unfold readBand
  rw [bind_eq_ok_iff]
  constructor
  · rintro ⟨⟨name, after⟩, hread, h⟩
    dsimp only at h
    split at h
    · cases h
    · next c hname =>
        split at h
        · cases h
        · next hnone =>
            obtain ⟨rfl, rfl⟩ := Prod.mk.inj (Except.ok.inj h)
            rw [ofName_eq_ok_iff] at hname
            rw [← hname, String.toList_ofList]
            exact ⟨lift_eq_ok_iff.mp hread, by simpa using hnone⟩
  · rintro ⟨hread, hnone⟩
    refine ⟨_, lift_eq_ok_iff.mpr hread, ?_⟩
    dsimp only
    rw [String.ofList_toList, Band.ofName_name]
    dsimp only
    rw [hnone]
    rfl

theorem readColon_eq_ok_iff : readColon cs = .ok rest ↔ skipBlanks cs = ':' :: rest := by
  unfold readColon
  split
  · next hskip => simp [hskip]
  · next hskip => simp [hskip]
  · next hcolon =>
      refine iff_of_false (by simp) ?_
      exact hcolon _

theorem readFieldStart_eq_end_iff {first : Bool} :
    readFieldStart first cs = .ok (false, rest) ↔ skipBlanks cs = '}' :: rest := by
  unfold readFieldStart
  split
  · next hskip => simp [hskip]
  · next hskip => simp [hskip]
  · next c after hbrace hskip =>
      have hc : c ≠ '}' := by simpa using hbrace
      refine iff_of_false ?_ (by simp [hskip, hc])
      split
      · split <;> simp
      · split
        · split <;> simp
        · simp

theorem readFieldStart_first_iff :
    readFieldStart true cs = .ok (true, rest) ↔ skipBlanks cs = '"' :: rest := by
  unfold readFieldStart
  split
  · next hskip => simp [hskip]
  · next hskip => simp [hskip]
  · next c after hbrace hskip =>
      rw [hskip, if_pos rfl]
      split
      · next hquote => simp [hquote]
      · next hquote => simp [hquote]

theorem readFieldStart_next_iff :
    readFieldStart false cs = .ok (true, rest) ↔
      ∃ next, skipBlanks cs = ',' :: next ∧ skipBlanks next = '"' :: rest := by
  unfold readFieldStart
  split
  · next hskip => simp [hskip]
  · next hskip => simp [hskip]
  · next c after hbrace hskip =>
      rw [hskip, if_neg (by decide)]
      split
      · next hcomma =>
          subst hcomma
          simp only [List.cons.injEq, true_and, exists_eq_left']
          split
          · next hnext => simp [hnext]
          · next hnext => simp [hnext]
          · next hnext => simp [hnext]
          · next hquote _ =>
              refine iff_of_false (by simp) ?_
              exact hquote _
      · next hcomma => simp [hcomma]

/-- From after the quote of its name a field of the band is read, which was not seen before. -/
structure ReadsField (seen : Seen) (quoted : List Char) (b : Band) (k : Nat) (rest : List Char) :
    Prop where
  unseen : seen.get b = none
  taken : ∃ named value, readText quoted = .ok (b.name.toList, named) ∧
    skipBlanks named = ':' :: value ∧ readRatio value = .ok (k, rest)

theorem readFields_eq_ok_iff {bound : Nat} {first : Bool} :
    readFields (bound + 1) first seen cs = .ok (r, rest) ↔
      (readFieldStart first cs = .ok (false, rest) ∧ complete seen = .ok r) ∨
        ∃ quoted b k after, readFieldStart first cs = .ok (true, quoted) ∧
          ReadsField seen quoted b k after ∧
          readFields bound false (seen.set b (some k)) after = .ok (r, rest) := by
  rw [readFields, bind_eq_ok_iff]
  constructor
  · rintro ⟨⟨another, start⟩, hstart, h⟩
    dsimp only at h
    cases another with
    | false =>
        left
        obtain ⟨rules, hcomplete, h⟩ := bind_eq_ok_iff.mp h
        obtain ⟨rfl, rfl⟩ := Prod.mk.inj (Except.ok.inj h)
        exact ⟨hstart, hcomplete⟩
    | true =>
        right
        obtain ⟨⟨b, named⟩, hband, h⟩ := bind_eq_ok_iff.mp h
        obtain ⟨value, hcolon, h⟩ := bind_eq_ok_iff.mp h
        obtain ⟨⟨k, after⟩, hratio, h⟩ := bind_eq_ok_iff.mp h
        obtain ⟨hname, hnone⟩ := readBand_eq_ok_iff.mp hband
        exact ⟨start, b, k, after, hstart,
          ⟨hnone, named, value, hname, readColon_eq_ok_iff.mp hcolon, hratio⟩, h⟩
  · rintro (⟨hstart, hcomplete⟩ | ⟨quoted, b, k, after, hstart, ⟨hnone, named, value, hname, hcolon,
      hratio⟩, h⟩)
    · exact ⟨_, hstart, bind_eq_ok_iff.mpr ⟨r, hcomplete, rfl⟩⟩
    · exact ⟨_, hstart, bind_eq_ok_iff.mpr ⟨_, readBand_eq_ok_iff.mpr ⟨hname, hnone⟩,
        bind_eq_ok_iff.mpr ⟨_, readColon_eq_ok_iff.mpr hcolon,
          bind_eq_ok_iff.mpr ⟨_, hratio, h⟩⟩⟩⟩

/-- A field is read from its text, and what is read is the text of a field. -/
theorem field_of_readsField {next quoted : List Char} (hquote : skipBlanks next = '"' :: quoted)
    (h : ReadsField seen quoted b k rest) :
    ∃ f : Field, next = f.chars ++ rest ∧ f.entry = (some b.name.toList, ofNat k) ∧
      Denotes f.name (text f.key) ∧ Denotes f.text f.value := by
  obtain ⟨-, named, value, hname, hcolon, hratio⟩ := h
  obtain ⟨body, rfl, hbody⟩ := spells_of_readText hname
  obtain ⟨opening, hopening, rfl⟩ := exists_blanks hquote
  obtain ⟨closing, hclosing, rfl⟩ := exists_blanks hcolon
  obtain ⟨text, rfl, hdenotes⟩ := denotes_of_readRatio hratio
  refine ⟨⟨opening ++ ('"' :: body ++ ['"']) ++ closing, some b.name.toList, text, ofNat k⟩,
    by simp [Field.chars], rfl, .padded hopening hclosing (.text (.chars hbody)), hdenotes⟩

theorem readText_of_readJsonText {s : List Char} (h : readJsonText cs = .ok (some s, rest)) :
    readText cs = .ok (s, rest) := by
  obtain ⟨body, rfl, hbody⟩ := spellsText_of_readJsonText h
  cases hbody with
  | chars spelled => exact readText_append spelled rest

theorem readsField_append {f : Field} (hunseen : seen.get b = none)
    (hentry : f.entry = (some b.name.toList, ofNat k)) (hk : k < capacity 32)
    (hnamed : Denotes f.name (text f.key)) (hdenotes : Denotes f.text f.value) (rest : List Char)
    (hrest : EndsNumeral rest) :
    ∃ quoted blanks, skipBlanks (f.chars ++ rest) = '"' :: quoted ∧ Blanks blanks ∧
      ReadsField seen quoted b k (blanks ++ rest) := by
  obtain ⟨name, key, value, v⟩ := f
  obtain ⟨rfl, rfl⟩ := Prod.mk.inj hentry
  obtain ⟨blanks, hblanks, hratio⟩ := readRatio_append hdenotes hk rest hrest
  obtain ⟨quoted, named, hquote, hkey, hcolon⟩ := hnamed.readName (value ++ rest)
  refine ⟨quoted, blanks, ?_, hblanks, hunseen, named, _, readText_of_readJsonText hkey, hcolon,
    hratio⟩
  simpa [Field.chars] using hquote

/-- The fields are written for the bands, in their order. -/
structure WrittenFor (r : Rules) (bands : List Band) (fields : List Field) : Prop where
  entries : fields.map Field.entry = entries r bands
  named : ∀ f ∈ fields, Denotes f.name (text f.key)
  denoted : ∀ f ∈ fields, Denotes f.text f.value

theorem writtenFor_nil (r : Rules) : WrittenFor r [] [] :=
  ⟨rfl, by simp, by simp⟩

theorem writtenFor_cons_iff {f : Field} {fields : List Field} :
    WrittenFor r (b :: bands) (f :: fields) ↔
      (f.entry = (some b.name.toList, ofNat (r.get b)) ∧ Denotes f.name (text f.key) ∧
        Denotes f.text f.value) ∧ WrittenFor r bands fields := by
  constructor
  · rintro ⟨hentries, hnamed, hdenoted⟩
    obtain ⟨hentry, hentries⟩ := List.cons.inj hentries
    rw [List.forall_mem_cons] at hnamed hdenoted
    exact ⟨⟨hentry, hnamed.1, hdenoted.1⟩, hentries, hnamed.2, hdenoted.2⟩
  · rintro ⟨⟨hentry, hnamed, hdenoted⟩, hentries, hnameds, hdenoteds⟩
    exact ⟨congrArg₂ List.cons hentry hentries, List.forall_mem_cons.mpr ⟨hnamed, hnameds⟩,
      List.forall_mem_cons.mpr ⟨hdenoted, hdenoteds⟩⟩

/-- What follows the text of a field. -/
def afterField (fields : List Field) (rest : List Char) : List Char :=
  following '}' (fields.map Field.chars) rest

@[simp] theorem afterField_cons (f : Field) (fields : List Field) (rest : List Char) :
    afterField (f :: fields) rest = ',' :: (f.chars ++ afterField fields rest) :=
  following_cons '}' f.chars (fields.map Field.chars) rest

theorem endsNumeral_afterField (fields : List Field) (rest : List Char) :
    EndsNumeral (afterField fields rest) :=
  endsNumeral_following (by simp [EndsNumeral]) _ _

/-- A field that was read, and what the fields after it are read from, are written for their bands. -/
theorem writtenFor_of_readsField {next quoted blanks : List Char} {fields : List Field}
    (hquote : skipBlanks next = '"' :: quoted)
    (hfield : ReadsField seen quoted b k (blanks ++ afterField fields rest)) (hblanks : Blanks blanks)
    (hwritten : WrittenFor r bands fields) (hfills : Fills (seen.set b (some k)) bands r) :
    ∃ f, next = f.chars ++ afterField fields rest ∧ WrittenFor r (b :: bands) (f :: fields) ∧
      Fills seen (b :: bands) r := by
  obtain ⟨f, rfl, hentry, hnamed, hdenotes⟩ := field_of_readsField hquote hfield
  have hratio : r.get b = k := hfills.kept b k (by rw [ByBand.get_set, if_pos rfl])
  subst hratio
  refine ⟨{ f with text := f.text ++ blanks }, by simp [Field.chars], ?_,
    fills_cons_iff.mpr ⟨hfield.unseen, hfills⟩⟩
  exact writtenFor_cons_iff.mpr ⟨⟨hentry, hnamed, hdenotes.append hblanks⟩, hwritten⟩

theorem writtenFor_of_readFields {bound : Nat}
    (h : readFields bound false seen cs = .ok (r, rest)) :
    ∃ blanks fields bands, Blanks blanks ∧ cs = blanks ++ afterField fields rest ∧
      WrittenFor r bands fields ∧ Fills seen bands r := by
  -- The fields behind a field fill in what that field left, so the induction is for all that may
  -- have been seen before.
  induction bound generalizing seen cs with
  | zero => cases h
  | succ bound ih =>
      rcases readFields_eq_ok_iff.mp h with ⟨hstart, hcomplete⟩ | ⟨quoted, b, k, after, hstart,
        hfield, hmore⟩
      · obtain ⟨blanks, hblanks, rfl⟩ := exists_blanks (readFieldStart_eq_end_iff.mp hstart)
        exact ⟨blanks, [], [], hblanks, rfl, writtenFor_nil r, fills_nil_iff.mpr hcomplete⟩
      · obtain ⟨next, hcomma, hquote⟩ := readFieldStart_next_iff.mp hstart
        obtain ⟨blanks, hblanks, rfl⟩ := exists_blanks hcomma
        obtain ⟨closing, fields, bands, hclosing, rfl, hwritten, hfills⟩ := ih hmore
        obtain ⟨f, rfl, hwritten, hfills⟩ :=
          writtenFor_of_readsField hquote hfield hclosing hwritten hfills
        exact ⟨blanks, f :: fields, b :: bands, hblanks, by rw [afterField_cons], hwritten, hfills⟩

/-- Whatever begins the field, it is read if the fields after it are. -/
theorem readFields_cons {f : Field} {fields : List Field} {first : Bool} {start : List Char}
    {bound : Nat} (hr : r.Accepted)
    (hstart : ∀ quoted, skipBlanks (f.chars ++ afterField fields rest) = '"' :: quoted →
      readFieldStart first start = .ok (true, quoted))
    (hwritten : WrittenFor r (b :: bands) (f :: fields)) (hunseen : seen.get b = none)
    (hmore : ∀ blanks, Blanks blanks →
      readFields bound false (seen.set b (some (r.get b))) (blanks ++ afterField fields rest) =
        .ok (r, rest)) :
    readFields (bound + 1) first seen start = .ok (r, rest) := by
  obtain ⟨⟨hentry, hnamed, hdenotes⟩, -⟩ := writtenFor_cons_iff.mp hwritten
  obtain ⟨quoted, closing, hquote, hclosing, hfield⟩ := readsField_append hunseen hentry
    (lt_capacity_of_accepted hr b) hnamed hdenotes (afterField fields rest)
    (endsNumeral_afterField fields rest)
  exact readFields_eq_ok_iff.mpr
    (.inr ⟨quoted, b, r.get b, _, hstart quoted hquote, hfield, hmore closing hclosing⟩)

theorem WrittenFor.exists_cons {fields : List Field} (h : WrittenFor r (b :: bands) fields) :
    ∃ f more, fields = f :: more := by
  obtain ⟨f, more, hfields, -⟩ := List.map_eq_cons_iff.mp h.entries
  exact ⟨f, more, hfields⟩

theorem readFields_append {blanks : List Char} {fields : List Field} {bound : Nat} (hr : r.Accepted)
    (hblanks : Blanks blanks) (hwritten : WrittenFor r bands fields) (hfills : Fills seen bands r)
    (hbound : bands.length < bound) :
    readFields bound false seen (blanks ++ afterField fields rest) = .ok (r, rest) := by
  induction bands generalizing seen fields blanks bound with
  | nil =>
      obtain ⟨bound, rfl⟩ := Nat.exists_eq_add_one_of_ne_zero (Nat.ne_zero_of_lt hbound)
      obtain rfl := List.map_eq_nil_iff.mp hwritten.entries
      exact readFields_eq_ok_iff.mpr (.inl ⟨readFieldStart_eq_end_iff.mpr
        (skipBlanks_append_cons hblanks rfl rest), fills_nil_iff.mp hfills⟩)
  | cons b bands ih =>
      obtain ⟨bound, rfl⟩ := Nat.exists_eq_add_one_of_ne_zero (Nat.ne_zero_of_lt hbound)
      obtain ⟨f, fields, rfl⟩ := hwritten.exists_cons
      obtain ⟨hunseen, hfills⟩ := fills_cons_iff.mp hfills
      refine readFields_cons hr (fun quoted hquote => ?_) hwritten hunseen fun closing hclosing =>
        ih hclosing (writtenFor_cons_iff.mp hwritten).2 hfills (Nat.lt_of_succ_lt_succ hbound)
      rw [afterField_cons]
      exact readFieldStart_next_iff.mpr ⟨_, skipBlanks_append_cons hblanks rfl _, hquote⟩

/-! ## Documents -/

/-- The value says what the rules are: every band once with its ratio, in any order, or the ratios
alone in the order of the bands. -/
inductive Gives (r : Rules) : Json → Prop
  | object {bands : List Band} (order : bands.Perm Band.all) : Gives r (.object (entries r bands))
  | array : Gives r (.array (r.toList.map ofNat))

theorem read_eq_ok_iff : read cs = .ok r ↔ ∃ rest, readRules cs = .ok (r, rest) ∧ Blanks rest := by
  unfold read
  rw [bind_eq_ok_iff]
  constructor
  · rintro ⟨⟨rules, rest⟩, hread, h⟩
    dsimp only at h
    split at h
    · next hblanks =>
        obtain rfl := Except.ok.inj h
        exact ⟨rest, hread, skipBlanks_eq_nil_iff.mp hblanks⟩
    · cases h
  · rintro ⟨rest, hread, hblanks⟩
    exact ⟨_, hread, if_pos (skipBlanks_eq_nil_iff.mpr hblanks)⟩

theorem spelled_of_readItems (h : readItems cs = .ok (r, rest)) :
    ∃ text v, '[' :: cs = text ++ rest ∧ Spelled text v ∧ Gives r v := by
  obtain ⟨items, hvalues, hdenotes, rfl⟩ := denotes_of_readItems h
  have hne : items ≠ [] := by
    rintro rfl
    cases hvalues
  exact ⟨_, _, by simp, .array hne hdenotes, hvalues ▸ .array⟩

theorem spelled_of_readFields {bound : Nat}
    (h : readFields bound true ⟨none, none, none⟩ cs = .ok (r, rest)) :
    ∃ text v, '{' :: cs = text ++ rest ∧ Spelled text v ∧ Gives r v := by
  cases bound with
  | zero => cases h
  | succ bound =>
      rcases readFields_eq_ok_iff.mp h with ⟨-, hcomplete⟩ | ⟨quoted, b, k, after, hstart, hfield,
        hmore⟩
      · have horder := fills_empty_iff.mp (fills_nil_iff.mpr hcomplete)
        cases horder.length_eq
      · obtain ⟨closing, fields, bands, hclosing, rfl, hwritten, hfills⟩ :=
          writtenFor_of_readFields hmore
        obtain ⟨f, rfl, hwritten, hfills⟩ := writtenFor_of_readsField
          (readFieldStart_first_iff.mp hstart) hfield hclosing hwritten hfills
        have htext := listed_append '}' f.chars (fields.map Field.chars) rest
        exact ⟨_, _, by simp [afterField, ← htext],
          .object (List.cons_ne_nil f fields) hwritten.named hwritten.denoted,
          hwritten.entries ▸ .object (fills_empty_iff.mp hfills)⟩

theorem gives_of_read (h : read cs = .ok r) : ∃ v, Denotes cs v ∧ Gives r v := by
  obtain ⟨rest, hread, hrest⟩ := read_eq_ok_iff.mp h
  have hspelled : ∃ text v, skipBlanks cs = text ++ rest ∧ Spelled text v ∧ Gives r v := by
    unfold readRules at hread
    split at hread
    · next hskip => exact hskip ▸ spelled_of_readItems hread
    · next hskip => exact hskip ▸ spelled_of_readFields hread
    · obtain ⟨found, -, h⟩ := bind_eq_ok_iff.mp hread
      cases h
  obtain ⟨text, v, hskip, hspelled, hgives⟩ := hspelled
  obtain ⟨text, rfl, hdenotes⟩ := denotes_of_skipBlanks hskip hspelled
  exact ⟨v, hdenotes.append hrest, hgives⟩

theorem readRules_array (hr : r.Accepted) {text : List Char} {opening : List Char}
    (hopening : Blanks opening) (h : Spelled text (.array (r.toList.map ofNat))) (rest : List Char) :
    readRules (opening ++ (text ++ rest)) = .ok (r, rest) := by
  generalize hvalue : Json.array (r.toList.map ofNat) = v at h
  cases h with
  | emptyArray blank => cases hvalue
  | @array items nonempty denoted =>
      have hread := readItems_append hr (Json.array.inj hvalue).symm denoted rest
      unfold readRules
      rw [skipBlanks_append hopening, List.cons_append, List.cons_append, skipBlanks_cons rfl]
      simpa using hread
  | null | bool | number | text | emptyObject | object => cases hvalue

theorem readRules_object (hr : r.Accepted) {text : List Char} {opening : List Char}
    (hopening : Blanks opening) (horder : bands.Perm Band.all)
    (h : Spelled text (.object (entries r bands))) (rest : List Char) :
    readRules (opening ++ (text ++ rest)) = .ok (r, rest) := by
  generalize hvalue : Json.object (entries r bands) = v at h
  cases h with
  | emptyObject blank =>
      have hbands := List.map_eq_nil_iff.mp (Json.object.inj hvalue)
      subst hbands
      cases horder.length_eq
  | @object fields nonempty named denoted =>
      have hwritten : WrittenFor r bands fields := ⟨(Json.object.inj hvalue).symm, named, denoted⟩
      have hlength : bands.length = Band.all.length := horder.length_eq
      have hfills : Fills ⟨none, none, none⟩ bands r := fills_empty_iff.mpr horder
      match bands with
      | b :: bands =>
          obtain ⟨f, fields, rfl⟩ := hwritten.exists_cons
          obtain ⟨hunseen, hfills⟩ := fills_cons_iff.mp hfills
          have hread : readFields (Band.all.length + 1) true ⟨none, none, none⟩
              (f.chars ++ afterField fields rest) = .ok (r, rest) :=
            readFields_cons hr (fun quoted hquote => readFieldStart_first_iff.mpr hquote) hwritten
              hunseen fun closing hclosing => readFields_append hr hclosing
                (writtenFor_cons_iff.mp hwritten).2 hfills (Nat.lt_of_succ_le hlength.le)
          unfold readRules
          rw [skipBlanks_append hopening, List.cons_append, List.cons_append, skipBlanks_cons rfl,
            List.append_assoc, List.singleton_append, List.map_cons, listed_append]
          exact hread
  | null | bool | number | text | emptyArray | array => cases hvalue

theorem read_of_gives (hr : r.Accepted) {v : Json} (h : Denotes cs v) (hgives : Gives r v) :
    read cs = .ok r := by
  obtain @⟨before, cs, after, v, opening, closing, spelled⟩ := h
  refine read_eq_ok_iff.mpr ⟨after, ?_, closing⟩
  rw [List.append_assoc]
  cases hgives with
  | object order => exact readRules_object hr opening order spelled after
  | array => exact readRules_array hr opening spelled after

end RulesDocument

/-- A text is read as rules exactly if it is a document that says them and every ratio is one that a
configuration may have; any other text is refused as rules, whatever file it stands in. -/
theorem Rules.parse_exact (text : String) :
    (∀ r, parse text = .ok r ↔
        (∃ v, Json.Denotes text.toList v ∧ RulesDocument.Gives r v) ∧ r.Accepted) ∧
      ((¬ ∃ r : Rules, (∃ v, Json.Denotes text.toList v ∧ RulesDocument.Gives r v) ∧ r.Accepted) →
        ∃ fault, parse text = .error fault ∧
          ∀ d path, d.fileText (.ofText path) = .ok text →
            Config.loadRules d path = .error (.invalidRules fault)) := by
  have hexact : ∀ r, parse text = .ok r ↔
      (∃ v, Json.Denotes text.toList v ∧ RulesDocument.Gives r v) ∧ r.Accepted := by
    intro r
    rw [parse_eq_ok_iff]
    refine and_congr_left fun hr => ⟨RulesDocument.gives_of_read, ?_⟩
    rintro ⟨v, hdenotes, hgives⟩
    exact RulesDocument.read_of_gives hr hdenotes hgives
  refine ⟨hexact, ?_⟩
  intro hnone
  cases hparse : parse text with
  | ok r => exact absurd ⟨r, (hexact r).mp hparse⟩ hnone
  | error fault =>
      refine ⟨fault, rfl, ?_⟩
      intro d path htext
      rw [Config.loadRules, htext]
      dsimp only
      rw [hparse]
      rfl

/-- Without the ratio of a band the others make no rules. -/
theorem Rules.parse_exact_incomplete :
    let text := "\x7b\"three_plus\": 8, \"under_two\": 3\x7d"
    let d : Disk := ⟨[(#["rules"], .file (Bytes.ofText text))]⟩
    ∃ fault, Config.loadRules d "rules" = .error (.invalidRules fault) := by
  intro text d
  have hrefused : (parse text).toOption = none := by decide +kernel
  have hread : d.fileText (.ofText "rules") = .ok text := by decide +kernel
  have hnone : ¬ ∃ r : Rules, (∃ v, Json.Denotes text.toList v ∧ RulesDocument.Gives r v) ∧
      r.Accepted := by
    rintro ⟨r, h⟩
    rw [((parse_exact text).1 r).mpr h] at hrefused
    cases hrefused
  obtain ⟨fault, -, hload⟩ := (parse_exact text).2 hnone
  exact ⟨fault, hload d "rules" hread⟩

end NurseryRota
