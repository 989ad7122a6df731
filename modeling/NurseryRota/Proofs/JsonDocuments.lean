import NurseryRota.Proofs.JsonGrammar

/-!
# JSON documents

A relation between texts and the values they denote, one rule for each form of a value.  Blanks may
stand around a value, and so around every item, name and field.  The reader accepts exactly the texts
that denote something, and reads them as what they denote.
-/

namespace NurseryRota.Json

/-- A field of an object as it is written: its name with the quotes, and its value. -/
structure Field where
  name : List Char
  key : JsonText
  text : List Char
  value : Json

def Field.chars (f : Field) : List Char := f.name ++ ':' :: f.text

def Field.entry (f : Field) : JsonText × Json := (f.key, f.value)

/-- The texts with commas between them. -/
def listed (texts : List (List Char)) : List Char := [','].intercalate texts

mutual

/-- The text is that of a value, without blanks around it. -/
inductive Spelled : List Char → Json → Prop
  | null : Spelled "null".toList null
  | bool (b : Bool) : Spelled (if b then "true" else "false").toList (bool b)
  | number {cs : List Char} {n : Numeral} (numeral : SpellsNumeral cs n) : Spelled cs (number n)
  | text {cs : List Char} {t : JsonText} (spelled : SpellsText cs t) :
      Spelled ('"' :: cs ++ ['"']) (text t)
  | emptyArray {blanks : List Char} (blank : Blanks blanks) :
      Spelled ('[' :: blanks ++ [']']) (array [])
  | array {items : List (List Char × Json)} (nonempty : items ≠ [])
      (denoted : ∀ i ∈ items, Denotes i.1 i.2) :
      Spelled ('[' :: listed (items.map Prod.fst) ++ [']']) (array (items.map Prod.snd))
  | emptyObject {blanks : List Char} (blank : Blanks blanks) :
      Spelled ('{' :: blanks ++ ['}']) (object [])
  | object {fields : List Field} (nonempty : fields ≠ [])
      (named : ∀ f ∈ fields, Denotes f.name (.text f.key))
      (denoted : ∀ f ∈ fields, Denotes f.text f.value) :
      Spelled ('{' :: listed (fields.map Field.chars) ++ ['}']) (object (fields.map Field.entry))

/-- The text is that of a value, with blanks around it or without. -/
inductive Denotes : List Char → Json → Prop
  | padded {before cs after : List Char} {v : Json} (opening : Blanks before) (closing : Blanks after)
      (spelled : Spelled cs v) : Denotes (before ++ cs ++ after) v

end

variable {cs rest : List Char} {v : Json} {bound : Nat}

theorem blanks_nil : Blanks [] := fun _ hc => nomatch hc

theorem Spelled.denotes (h : Spelled cs v) : Denotes cs v := by
  have hpadded := Denotes.padded blanks_nil blanks_nil h
  simpa using hpadded

theorem Blanks.append {xs ys : List Char} (hxs : Blanks xs) (hys : Blanks ys) : Blanks (xs ++ ys) :=
  List.forall_mem_append.mpr ⟨hxs, hys⟩

theorem Denotes.append {blanks : List Char} (h : Denotes cs v) (hblanks : Blanks blanks) :
    Denotes (cs ++ blanks) v := by
  obtain ⟨opening, closing, spelled⟩ := h
  have hpadded := Denotes.padded opening (closing.append hblanks) spelled
  rwa [← List.append_assoc] at hpadded

/-! ## Lists of texts -/

@[simp] theorem listed_singleton (text : List Char) : listed [text] = text := by
  simp [listed]

@[simp] theorem listed_cons_cons (text next : List Char) (more : List (List Char)) :
    listed (text :: next :: more) = text ++ ',' :: listed (next :: more) := by
  simp [listed, List.intercalate_cons_cons]

/-- What follows a listed text: the others, each after a comma, and the closing character. -/
def following (close : Char) (more : List (List Char)) (rest : List Char) : List Char :=
  (more.flatMap fun text => ',' :: text) ++ close :: rest

@[simp] theorem following_nil (close : Char) (rest : List Char) :
    following close [] rest = close :: rest := rfl

@[simp] theorem following_cons (close : Char) (text : List Char) (more : List (List Char))
    (rest : List Char) :
    following close (text :: more) rest = ',' :: (text ++ following close more rest) := by
  simp [following]

theorem listed_append (close : Char) (text : List Char) (more : List (List Char)) (rest : List Char) :
    listed (text :: more) ++ close :: rest = text ++ following close more rest := by
  induction more generalizing text with
  | nil => simp
  | cons next more ih =>
      rw [listed_cons_cons, List.append_assoc, List.cons_append, ih, following_cons]

theorem length_le_listed (text : List Char) (more : List (List Char)) :
    text.length ≤ (listed (text :: more)).length := by
  cases more <;> simp

theorem length_listed_lt (text next : List Char) (more : List (List Char)) :
    (listed (next :: more)).length < (listed (text :: next :: more)).length := by
  simp only [listed_cons_cons, List.length_append, List.length_cons]
  omega

/-! ## Blanks -/

theorem skipBlanks_append {blanks : List Char} (h : Blanks blanks) (cs : List Char) :
    skipBlanks (blanks ++ cs) = skipBlanks cs :=
  List.dropWhile_append_of_pos h

theorem skipBlanks_cons {c : Char} (h : isBlank c = false) (cs : List Char) :
    skipBlanks (c :: cs) = c :: cs := by
  simp [skipBlanks, h]

theorem skipBlanks_append_cons {blanks : List Char} {c : Char} (h : Blanks blanks)
    (hc : isBlank c = false) (cs : List Char) : skipBlanks (blanks ++ c :: cs) = c :: cs := by
  rw [skipBlanks_append h, skipBlanks_cons hc]

theorem exists_blanks (h : skipBlanks cs = rest) : ∃ blanks, Blanks blanks ∧ cs = blanks ++ rest :=
  ⟨cs.takeWhile isBlank, fun _ hc => List.mem_takeWhile_imp hc,
    h ▸ List.takeWhile_append_dropWhile.symm⟩

theorem skipBlanks_eq_nil_iff : skipBlanks cs = [] ↔ Blanks cs := List.dropWhile_eq_nil_iff

theorem skipBlanks_skipBlanks (cs : List Char) : skipBlanks (skipBlanks cs) = skipBlanks cs := by
  obtain ⟨blanks, hblanks, hcs⟩ := exists_blanks (Eq.refl (skipBlanks cs))
  rw [← skipBlanks_append hblanks (skipBlanks cs), ← hcs]

theorem endsNumeral_nil : EndsNumeral [] := by
  intro c hc
  cases hc

theorem endsNumeral_append {blanks : List Char} (h : Blanks blanks) (hrest : EndsNumeral rest) :
    EndsNumeral (blanks ++ rest) := by
  cases blanks with
  | nil => exact hrest
  | cons b blanks =>
      intro c hc
      obtain rfl := Option.some.inj hc
      have hblank := h b List.mem_cons_self
      simp only [isBlank, Bool.or_eq_true, decide_eq_true_eq] at hblank
      rcases hblank with ((rfl | rfl) | rfl) | rfl <;> decide

theorem endsNumeral_following {close : Char} (hclose : EndsNumeral [close]) (more : List (List Char))
    (rest : List Char) : EndsNumeral (following close more rest) := by
  cases more with
  | nil => exact hclose
  | cons text more => simp [EndsNumeral]

/-! ## Reading what a text denotes -/

theorem ne_of_isDigit {c d : Char} (hc : c.isDigit = true) (hd : d.isDigit = false) : c ≠ d := by
  rintro rfl
  exact absurd hc (ne_true_of_eq_false hd)

theorem isBlank_eq_false_of_isDigit {c : Char} (h : c.isDigit = true) : isBlank c = false := by
  simp [isBlank, ne_of_isDigit h]

theorem SpellsNumeral.head {n : Numeral} (h : SpellsNumeral cs n) :
    ∃ c tail, cs = c :: tail ∧ (c = '-' ∨ c.isDigit = true) := by
  obtain @⟨negative, whole, fraction, more, exponent, ⟨hne, hall⟩, zero, fractional, scaled⟩ := h
  cases negative with
  | true => exact ⟨'-', _, rfl, .inl rfl⟩
  | false =>
      cases whole with
      | nil => exact absurd rfl hne
      | cons d ds => exact ⟨d, _, rfl, .inr (hall d List.mem_cons_self)⟩

theorem readValue_of_head {c : Char} (h : c = '-' ∨ c.isDigit = true) (cs : List Char) :
    readValue (bound + 1) (c :: cs) =
      (readNumeral (c :: cs)).map fun (n, rest) => (number n, rest) := by
  rcases h with rfl | h
  · rfl
  · unfold readValue
    rw [skipBlanks_cons (isBlank_eq_false_of_isDigit h)]
    simp [ne_of_isDigit h, h]

/-- The text of a value begins with a character that neither ends a list of values nor is skipped. -/
theorem Spelled.head (h : Spelled cs v) :
    ∃ c tail, cs = c :: tail ∧ isBlank c = false ∧ c ≠ ']' ∧ c ≠ '}' := by
  cases h with
  | null => exact ⟨'n', _, rfl, by decide⟩
  | bool b =>
      cases b with
      | true => exact ⟨'t', _, rfl, by decide⟩
      | false => exact ⟨'f', _, rfl, by decide⟩
  | number numeral =>
      obtain ⟨c, tail, rfl, rfl | h⟩ := numeral.head
      · exact ⟨'-', tail, rfl, by decide⟩
      · exact ⟨c, tail, rfl, isBlank_eq_false_of_isDigit h, ne_of_isDigit h rfl, ne_of_isDigit h rfl⟩
  | text spelled => exact ⟨'"', _, rfl, by decide⟩
  | emptyArray blank => exact ⟨'[', _, rfl, by decide⟩
  | array nonempty denoted => exact ⟨'[', _, rfl, by decide⟩
  | emptyObject blank => exact ⟨'{', _, rfl, by decide⟩
  | object nonempty named denoted => exact ⟨'{', _, rfl, by decide⟩

theorem Denotes.head (h : Denotes cs v) :
    ∃ c tail, (∀ rest, skipBlanks (cs ++ rest) = c :: (tail ++ rest)) ∧ c ≠ ']' ∧ c ≠ '}' := by
  obtain @⟨before, cs, after, v, opening, closing, spelled⟩ := h
  obtain ⟨c, tail, rfl, hblank, hc⟩ := spelled.head
  refine ⟨c, tail ++ after, ?_, hc⟩
  intro rest
  rw [List.append_assoc, List.append_assoc, skipBlanks_append opening, List.cons_append,
    skipBlanks_cons hblank, List.append_assoc]

theorem Digits.isBlank_eq_false {ds : List Char} (h : Digits ds) : ∀ c ∈ ds, isBlank c = false :=
  fun c hc => isBlank_eq_false_of_isDigit (h.2 c hc)

theorem SpellsExponent.isBlank_eq_false {exponent : Option (Bool × List Char)}
    (h : SpellsExponent cs exponent) : ∀ c ∈ cs, isBlank c = false := by
  have hmark : ∀ e : Char, e = 'e' ∨ e = 'E' → isBlank e = false := by
    rintro e (rfl | rfl) <;> decide
  cases h with
  | absent => simp
  | bare mark digits =>
      exact List.forall_mem_cons.mpr ⟨hmark _ mark, digits.isBlank_eq_false⟩
  | plus mark digits | minus mark digits =>
      exact List.forall_mem_cons.mpr ⟨hmark _ mark,
        List.forall_mem_cons.mpr ⟨by decide, digits.isBlank_eq_false⟩⟩

theorem SpellsNumeral.isBlank_eq_false {n : Numeral} (h : SpellsNumeral cs n) :
    ∀ c ∈ cs, isBlank c = false := by
  obtain @⟨negative, whole, fraction, more, exponent, digits, zero, fractional, scaled⟩ := h
  have hsign : ∀ c ∈ (if negative then ['-'] else []), isBlank c = false := by
    cases negative <;> simp [isBlank]
  have hfraction : ∀ c ∈ (if fraction = [] then [] else '.' :: fraction), isBlank c = false := by
    split
    · simp
    · exact List.forall_mem_cons.mpr
        ⟨by decide, fun c hc => isBlank_eq_false_of_isDigit (fractional c hc)⟩
  simp only [List.forall_mem_append]
  exact ⟨⟨⟨hsign, digits.isBlank_eq_false⟩, hfraction⟩, scaled.isBlank_eq_false⟩

/-- The text of a value ends with a character that is not blank. -/
theorem Spelled.last (h : Spelled cs v) : ∃ c, cs.getLast? = some c ∧ isBlank c = false := by
  cases h with
  | null => exact ⟨'l', rfl, by decide⟩
  | bool b => cases b <;> exact ⟨'e', rfl, by decide⟩
  | number numeral =>
      obtain ⟨first, tail, rfl, -⟩ := numeral.head
      have hne : first :: tail ≠ [] := List.cons_ne_nil first tail
      exact ⟨_, List.getLast?_eq_some_getLast hne,
        numeral.isBlank_eq_false _ (List.getLast_mem hne)⟩
  | text spelled => exact ⟨'"', List.getLast?_concat, by decide⟩
  | emptyArray blank => exact ⟨']', List.getLast?_concat, by decide⟩
  | array nonempty denoted => exact ⟨']', List.getLast?_concat, by decide⟩
  | emptyObject blank => exact ⟨'}', List.getLast?_concat, by decide⟩
  | object nonempty named denoted => exact ⟨'}', List.getLast?_concat, by decide⟩

/-- Blanks at the end of a text may be left out: what it denotes is spelled before them. -/
theorem Denotes.of_append {blanks : List Char} (h : Denotes (cs ++ blanks) v)
    (hblanks : Blanks blanks) : Denotes cs v := by
  generalize hall : cs ++ blanks = all at h
  obtain @⟨before, body, after, v, opening, closing, spelled⟩ := h
  rcases List.append_eq_append_iff.mp hall with ⟨more, hbefore, hmore⟩ | ⟨more, rfl, rfl⟩
  · -- The value cannot end behind `cs`, among the blanks.
    obtain ⟨c, hlast, hc⟩ := spelled.last
    have hends : (cs ++ more).getLast? = some c := by
      rw [← hbefore, List.getLast?_append, hlast, Option.some_or]
    have hnil : more = [] := by
      by_contra hne
      rw [List.getLast?_append, List.getLast?_eq_some_getLast hne, Option.some_or] at hends
      have hmem : c ∈ blanks := by
        rw [hmore, ← Option.some.inj hends]
        exact List.mem_append_left after (List.getLast_mem hne)
      have hblank : isBlank c = true := hblanks c hmem
      rw [hc] at hblank
      cases hblank
    rw [hnil, List.append_nil] at hbefore
    rw [← hbefore]
    simpa using Denotes.padded opening blanks_nil spelled
  · exact .padded opening (fun c hc => closing c (List.mem_append_left _ hc)) spelled

/-- With a bound of the text's length the reader takes the text for the value, and perhaps leaves
blanks at its end. -/
def Reads (cs : List Char) (v : Json) : Prop :=
  ∀ bound rest, cs.length ≤ bound → EndsNumeral rest →
    ∃ blanks, Blanks blanks ∧ readValue bound (cs ++ rest) = .ok (v, blanks ++ rest)

theorem readItems_eq_ok_iff {vs : List Json} :
    readItems (bound + 1) cs = .ok (vs, rest) ↔
      ∃ v after, readValue bound cs = .ok (v, after) ∧
        (skipBlanks after = ']' :: rest ∧ vs = [v] ∨
          ∃ next more, skipBlanks after = ',' :: next ∧ (skipBlanks next).head? ≠ some ']' ∧
            readItems bound next = .ok (more, rest) ∧ vs = v :: more) := by
  rw [readItems, bind_eq_ok_iff, Prod.exists]
  refine exists₂_congr fun v after => and_congr_right fun _ => ?_
  dsimp only
  split
  · next hskip => simp [hskip]
  · next hskip => simp [hskip, and_comm, eq_comm]
  · next next hskip =>
      by_cases htrailing : (skipBlanks next).head? = some ']'
      · simp [hskip, htrailing]
      · simp [hskip, htrailing, map_eq_ok_iff, @eq_comm _ vs]
  · next hnil hend hmore =>
      refine iff_of_false (by simp) ?_
      rintro (⟨hskip, -⟩ | ⟨next, more, hskip, -⟩)
      · exact hend _ hskip
      · exact hmore _ hskip

theorem readFields_eq_ok_iff {fields : List (JsonText × Json)} :
    readFields (bound + 1) cs = .ok (fields, rest) ↔
      ∃ quoted k named value v after, skipBlanks cs = '"' :: quoted ∧
        readJsonText quoted = .ok (k, named) ∧ skipBlanks named = ':' :: value ∧
        readValue bound value = .ok (v, after) ∧
        (skipBlanks after = '}' :: rest ∧ fields = [(k, v)] ∨
          ∃ next more, skipBlanks after = ',' :: next ∧ (skipBlanks next).head? ≠ some '}' ∧
            readFields bound next = .ok (more, rest) ∧ fields = (k, v) :: more) := by
  rw [readFields]
  split
  · next hskip => simp [hskip]
  · next quoted hskip =>
      simp only [bind_eq_ok_iff, Prod.exists, hskip, List.cons.injEq, true_and, exists_and_left,
        exists_eq_left']
      refine exists₂_congr fun k named => and_congr_right fun _ => ?_
      split
      · next hcolon => simp [hcolon]
      · next value hcolon =>
          simp only [bind_eq_ok_iff, Prod.exists, hcolon, List.cons.injEq, true_and, exists_eq_left']
          refine exists₂_congr fun v after => and_congr_right fun _ => ?_
          split
          · next hskip => simp [hskip]
          · next hskip => simp [hskip, and_comm, eq_comm]
          · next next hskip =>
              by_cases htrailing : (skipBlanks next).head? = some '}'
              · simp [hskip, htrailing]
              · simp [hskip, htrailing, map_eq_ok_iff, @eq_comm _ fields]
          · next hnil hend hmore =>
              refine iff_of_false (by simp) ?_
              rintro (⟨hskip, -⟩ | ⟨next, hskip, -⟩)
              · exact hend _ hskip
              · exact hmore _ hskip
      · next hnil hcolon =>
          refine iff_of_false (by simp) ?_
          rintro ⟨value, hskip, -⟩
          exact hcolon _ hskip
  · next hnil hquote =>
      refine iff_of_false (by simp) ?_
      rintro ⟨quoted, k, named, value, v, after, hskip, -⟩
      exact hquote _ hskip

theorem readItems_listed {items : List (List Char × Json)} (hne : items ≠ [])
    (hdenotes : ∀ i ∈ items, Denotes i.1 i.2) (hreads : ∀ i ∈ items, Reads i.1 i.2)
    (hbound : (listed (items.map Prod.fst)).length < bound) (rest : List Char) :
    readItems bound (listed (items.map Prod.fst) ++ ']' :: rest) =
      .ok (items.map Prod.snd, rest) := by
  -- An item leaves blanks and what follows it, and whether others follow is told by the first
  -- character behind the blanks.
  induction items generalizing bound with
  | nil => exact absurd rfl hne
  | cons item items ih =>
      obtain ⟨bound, rfl⟩ := Nat.exists_eq_add_one_of_ne_zero (Nat.ne_zero_of_lt hbound)
      rw [List.forall_mem_cons] at hdenotes hreads
      rw [List.map_cons] at hbound ⊢
      have hlength := length_le_listed item.1 (items.map Prod.fst)
      obtain ⟨blanks, hblanks, hread⟩ := hreads.1 bound (following ']' (items.map Prod.fst) rest)
        (by omega) (endsNumeral_following (by simp [EndsNumeral]) _ _)
      rw [listed_append]
      refine readItems_eq_ok_iff.mpr ⟨_, _, hread, ?_⟩
      cases items with
      | nil => exact .inl ⟨skipBlanks_append_cons hblanks rfl rest, rfl⟩
      | cons next items =>
          obtain ⟨c, tail, hhead, hbracket, -⟩ := (hdenotes.2 next List.mem_cons_self).head
          have hmore := ih (List.cons_ne_nil _ _) hdenotes.2 hreads.2
            (Nat.lt_of_lt_of_le (length_listed_lt item.1 _ _) (Nat.le_of_lt_succ hbound))
          rw [List.map_cons, listed_append] at hmore
          rw [List.map_cons, following_cons]
          refine .inr ⟨_, _, skipBlanks_append_cons hblanks rfl _, ?_, hmore, rfl⟩
          rw [hhead]
          simpa using hbracket

/-- A field's name is read up to its colon. -/
theorem Denotes.readName {t : JsonText} (h : Denotes cs (text t)) (rest : List Char) :
    ∃ quoted named, skipBlanks (cs ++ ':' :: rest) = '"' :: quoted ∧
      readJsonText quoted = .ok (t, named) ∧ skipBlanks named = ':' :: rest := by
  obtain @⟨before, _, after, _, opening, closing, spelled⟩ := h
  cases spelled with
  | @text cs t spelled =>
      refine ⟨cs ++ '"' :: (after ++ ':' :: rest), after ++ ':' :: rest, ?_,
        readJsonText_append spelled _, skipBlanks_append_cons closing rfl rest⟩
      have hname :=
        skipBlanks_append_cons (c := '"') opening rfl (cs ++ '"' :: (after ++ ':' :: rest))
      simpa using hname

theorem readFields_listed {fields : List Field} (hne : fields ≠ [])
    (hnamed : ∀ f ∈ fields, Denotes f.name (text f.key)) (hreads : ∀ f ∈ fields, Reads f.text f.value)
    (hbound : (listed (fields.map Field.chars)).length < bound) (rest : List Char) :
    readFields bound (listed (fields.map Field.chars) ++ '}' :: rest) =
      .ok (fields.map Field.entry, rest) := by
  induction fields generalizing bound with
  | nil => exact absurd rfl hne
  | cons field fields ih =>
      obtain ⟨bound, rfl⟩ := Nat.exists_eq_add_one_of_ne_zero (Nat.ne_zero_of_lt hbound)
      rw [List.forall_mem_cons] at hnamed hreads
      rw [List.map_cons] at hbound ⊢
      have hlength := length_le_listed field.chars (fields.map Field.chars)
      have htext : field.text.length ≤ field.chars.length := by
        simp only [Field.chars, List.length_append, List.length_cons]
        omega
      obtain ⟨blanks, hblanks, hread⟩ := hreads.1 bound
        (following '}' (fields.map Field.chars) rest) (by omega)
        (endsNumeral_following (by simp [EndsNumeral]) _ _)
      obtain ⟨quoted, named, hquote, hkey, hcolon⟩ :=
        hnamed.1.readName (field.text ++ following '}' (fields.map Field.chars) rest)
      rw [listed_append, Field.chars, List.append_assoc, List.cons_append]
      refine readFields_eq_ok_iff.mpr ⟨_, _, _, _, _, _, hquote, hkey, hcolon, hread, ?_⟩
      cases fields with
      | nil => exact .inl ⟨skipBlanks_append_cons hblanks rfl rest, rfl⟩
      | cons next fields =>
          obtain ⟨c, tail, hhead, -, hbrace⟩ := (hnamed.2 next List.mem_cons_self).head
          have hmore := ih (List.cons_ne_nil _ _) hnamed.2 hreads.2
            (Nat.lt_of_lt_of_le (length_listed_lt field.chars _ _) (Nat.le_of_lt_succ hbound))
          rw [List.map_cons, listed_append] at hmore
          rw [List.map_cons, following_cons]
          refine .inr ⟨_, _, skipBlanks_append_cons hblanks rfl _, ?_, hmore, rfl⟩
          rw [Field.chars, List.append_assoc, hhead]
          simpa using hbrace

theorem readValue_append {blanks : List Char} (h : Blanks blanks) (cs : List Char) :
    readValue bound (blanks ++ cs) = readValue bound cs := by
  cases bound with
  | zero => rfl
  | succ bound =>
      unfold readValue
      rw [skipBlanks_append h]

theorem readValue_emptyArray (h : skipBlanks cs = ']' :: rest) :
    readValue (bound + 1) ('[' :: cs) = .ok (array [], rest) := by
  rw [readValue, skipBlanks_cons rfl]
  simp [h]

theorem readValue_array {c : Char} {tail : List Char} (h : skipBlanks cs = c :: tail)
    (hbracket : c ≠ ']') :
    readValue (bound + 1) ('[' :: cs) =
      (readItems bound cs).map fun (items, rest) => (array items, rest) := by
  rw [readValue, skipBlanks_cons rfl]
  simp [h, hbracket]

theorem readValue_emptyObject (h : skipBlanks cs = '}' :: rest) :
    readValue (bound + 1) ('{' :: cs) = .ok (object [], rest) := by
  rw [readValue, skipBlanks_cons rfl]
  simp [h]

theorem readFields_skipBlanks (bound : Nat) (cs : List Char) :
    readFields bound (skipBlanks cs) = readFields bound cs := by
  cases bound with
  | zero => rfl
  | succ bound => rw [readFields, readFields, skipBlanks_skipBlanks]

theorem readValue_object {c : Char} {tail : List Char} (h : skipBlanks cs = c :: tail)
    (hbrace : c ≠ '}') :
    readValue (bound + 1) ('{' :: cs) =
      (readFields bound cs).map fun (fields, rest) => (object fields, rest) := by
  rw [readValue, skipBlanks_cons rfl, ← readFields_skipBlanks]
  simp [h, hbrace]

mutual

theorem Spelled.read {cs rest : List Char} {v : Json} {bound : Nat} (h : Spelled cs v)
    (hbound : cs.length ≤ bound) (hrest : EndsNumeral rest) :
    readValue bound (cs ++ rest) = .ok (v, rest) := by
  -- Every reader inside takes a bound less by one, and the brackets make the text inside shorter.
  cases bound with
  | zero =>
      obtain ⟨c, tail, rfl, -⟩ := h.head
      cases hbound
  | succ bound =>
      match h with
      | .null => rfl
      | .bool b => cases b <;> rfl
      | .number numeral =>
          obtain ⟨c, tail, rfl, hhead⟩ := numeral.head
          rw [List.cons_append, readValue_of_head hhead, ← List.cons_append,
            readNumeral_append numeral hrest]
          rfl
      | .text spelled =>
          rw [List.cons_append, List.cons_append, List.append_assoc, readValue, skipBlanks_cons rfl]
          exact map_eq_ok_iff.mpr ⟨_, readJsonText_append spelled rest, rfl⟩
      | .emptyArray blank =>
          rw [List.cons_append, List.cons_append, List.append_assoc]
          exact readValue_emptyArray (skipBlanks_append_cons blank rfl rest)
      | @Spelled.array items nonempty denoted =>
          have hlength : (listed (items.map Prod.fst)).length < bound := by
            simpa [Nat.succ_le_iff] using hbound
          have hread := readItems_listed nonempty denoted
            (fun i hi => Denotes.reads (denoted i hi)) hlength rest
          obtain ⟨first, more, rfl⟩ := List.exists_cons_of_ne_nil nonempty
          obtain ⟨c, tail, hhead, hbracket, -⟩ := (denoted first List.mem_cons_self).head
          rw [List.cons_append, List.cons_append, List.append_assoc, List.singleton_append]
          rw [List.map_cons, listed_append] at hread ⊢
          rw [readValue_array (hhead _) hbracket, hread]
          rfl
      | .emptyObject blank =>
          rw [List.cons_append, List.cons_append, List.append_assoc]
          exact readValue_emptyObject (skipBlanks_append_cons blank rfl rest)
      | @Spelled.object fields nonempty named denoted =>
          have hlength : (listed (fields.map Field.chars)).length < bound := by
            simpa [Nat.succ_le_iff] using hbound
          have hread := readFields_listed nonempty named
            (fun f hf => Denotes.reads (denoted f hf)) hlength rest
          obtain ⟨first, more, rfl⟩ := List.exists_cons_of_ne_nil nonempty
          obtain ⟨c, tail, hhead, -, hbrace⟩ := (named first List.mem_cons_self).head
          rw [List.cons_append, List.cons_append, List.append_assoc, List.singleton_append]
          rw [List.map_cons, listed_append, Field.chars, List.append_assoc] at hread ⊢
          rw [readValue_object (hhead _) hbrace, hread]
          rfl

theorem Denotes.reads {cs : List Char} {v : Json} (h : Denotes cs v) : Reads cs v := by
  intro bound rest hbound hrest
  match h with
  | .padded opening closing spelled =>
      refine ⟨_, closing, ?_⟩
      rw [List.append_assoc, List.append_assoc, readValue_append opening]
      rw [List.length_append, List.length_append] at hbound
      exact Spelled.read spelled (by omega) (endsNumeral_append closing hrest)

end

/-! ## What a text that is read denotes -/

theorem skipWord_eq_ok {word : List Char} (h : skipWord word cs = .ok rest) :
    cs = word ++ rest := by
  fun_induction skipWord word cs with
  | case1 cs => exact Except.ok.inj h
  | case2 | case4 => cases h
  | case3 w word cs ih => rw [ih h, List.cons_append]

theorem denotes_of_skipBlanks {text : List Char} (hskip : skipBlanks cs = text ++ rest)
    (h : Spelled text v) : ∃ text, cs = text ++ rest ∧ Denotes text v := by
  obtain ⟨blanks, hblanks, hcs⟩ := exists_blanks hskip
  refine ⟨blanks ++ text, by rw [hcs, List.append_assoc], ?_⟩
  have hpadded := Denotes.padded hblanks blanks_nil h
  rwa [List.append_nil] at hpadded

/-- A value that is a bare word is read by its first character and the rest of the word. -/
theorem denotes_of_skipWord {c : Char} {word tail : List Char} {w : Json}
    (hskip : skipBlanks cs = c :: tail)
    (hread : (skipWord word tail).map (fun rest => (w, rest)) = .ok (v, rest))
    (hspelled : Spelled (c :: word) w) : ∃ text, cs = text ++ rest ∧ Denotes text v := by
  obtain ⟨after, hword, hv⟩ := map_eq_ok_iff.mp hread
  obtain ⟨rfl, rfl⟩ := Prod.mk.inj hv
  rw [skipWord_eq_ok hword] at hskip
  exact denotes_of_skipBlanks hskip hspelled

mutual

theorem denotes_of_readValue {bound : Nat} {cs rest : List Char} {v : Json}
    (h : readValue bound cs = .ok (v, rest)) : ∃ text, cs = text ++ rest ∧ Denotes text v := by
  match bound with
  | 0 => cases h
  | bound + 1 =>
      rw [readValue] at h
      split at h
      · cases h
      · next hskip => exact denotes_of_skipWord hskip h .null
      · next hskip => exact denotes_of_skipWord hskip h (.bool true)
      · next hskip => exact denotes_of_skipWord hskip h (.bool false)
      · next hskip =>
          obtain ⟨⟨t, after⟩, htext, hv⟩ := map_eq_ok_iff.mp h
          obtain ⟨rfl, rfl⟩ := Prod.mk.inj hv
          obtain ⟨body, rfl, hbody⟩ := spellsText_of_readJsonText htext
          exact denotes_of_skipBlanks (by simpa using hskip) (.text hbody)
      · next inner hskip =>
          split at h
          · next hclose =>
              obtain ⟨rfl, rfl⟩ := Prod.mk.inj (Except.ok.inj h)
              obtain ⟨blanks, hblanks, rfl⟩ := exists_blanks hclose
              exact denotes_of_skipBlanks (by simpa using hskip) (.emptyArray hblanks)
          · cases h
          · obtain ⟨⟨vs, after⟩, hitems, hv⟩ := map_eq_ok_iff.mp h
            obtain ⟨rfl, rfl⟩ := Prod.mk.inj hv
            obtain ⟨items, hne, hdenotes, rfl, rfl⟩ := items_of_readItems hitems
            exact denotes_of_skipBlanks (by simpa using hskip) (.array hne hdenotes)
      · next inner hskip =>
          split at h
          · next hclose =>
              obtain ⟨rfl, rfl⟩ := Prod.mk.inj (Except.ok.inj h)
              obtain ⟨blanks, hblanks, rfl⟩ := exists_blanks hclose
              exact denotes_of_skipBlanks (by simpa using hskip) (.emptyObject hblanks)
          · cases h
          · rw [readFields_skipBlanks] at h
            obtain ⟨⟨entries, after⟩, hfields, hv⟩ := map_eq_ok_iff.mp h
            obtain ⟨rfl, rfl⟩ := Prod.mk.inj hv
            obtain ⟨fields, hne, hnamed, hdenotes, rfl, rfl⟩ := fields_of_readFields hfields
            exact denotes_of_skipBlanks (by simpa using hskip) (.object hne hnamed hdenotes)
      · next hskip =>
          split at h
          · obtain ⟨⟨n, after⟩, hnumeral, hv⟩ := map_eq_ok_iff.mp h
            obtain ⟨rfl, rfl⟩ := Prod.mk.inj hv
            obtain ⟨body, hbody, numeral⟩ := spellsNumeral_of_readNumeral hnumeral
            exact denotes_of_skipBlanks (hskip.trans hbody) (.number numeral)
          · cases h

theorem items_of_readItems {bound : Nat} {cs rest : List Char} {vs : List Json}
    (h : readItems bound cs = .ok (vs, rest)) :
    ∃ items : List (List Char × Json), items ≠ [] ∧ (∀ i ∈ items, Denotes i.1 i.2) ∧
      cs = listed (items.map Prod.fst) ++ ']' :: rest ∧ vs = items.map Prod.snd := by
  match bound with
  | 0 => cases h
  | bound + 1 =>
      obtain ⟨v, after, hread, hend⟩ := readItems_eq_ok_iff.mp h
      obtain ⟨text, rfl, hdenotes⟩ := denotes_of_readValue hread
      rcases hend with ⟨hclose, rfl⟩ | ⟨next, more, hcomma, -, hmore, rfl⟩
      · obtain ⟨blanks, hblanks, rfl⟩ := exists_blanks hclose
        exact ⟨[(text ++ blanks, v)], by simp, by simpa using hdenotes.append hblanks, by simp, rfl⟩
      · obtain ⟨blanks, hblanks, rfl⟩ := exists_blanks hcomma
        obtain ⟨items, hne, hitems, rfl, rfl⟩ := items_of_readItems hmore
        refine ⟨(text ++ blanks, v) :: items, by simp, ?_, ?_, rfl⟩
        · rw [List.forall_mem_cons]
          exact ⟨hdenotes.append hblanks, hitems⟩
        · obtain ⟨next, more, rfl⟩ := List.exists_cons_of_ne_nil hne
          simp

theorem fields_of_readFields {bound : Nat} {cs rest : List Char} {entries : List (JsonText × Json)}
    (h : readFields bound cs = .ok (entries, rest)) :
    ∃ fields : List Field, fields ≠ [] ∧ (∀ f ∈ fields, Denotes f.name (text f.key)) ∧
      (∀ f ∈ fields, Denotes f.text f.value) ∧
      cs = listed (fields.map Field.chars) ++ '}' :: rest ∧ entries = fields.map Field.entry := by
  match bound with
  | 0 => cases h
  | bound + 1 =>
      obtain ⟨quoted, k, named, value, v, after, hquote, hkey, hcolon, hread, hend⟩ :=
        readFields_eq_ok_iff.mp h
      obtain ⟨body, rfl, hbody⟩ := spellsText_of_readJsonText hkey
      obtain ⟨opening, hopening, rfl⟩ := exists_blanks hquote
      obtain ⟨closing, hclosing, rfl⟩ := exists_blanks hcolon
      obtain ⟨text, rfl, hdenotes⟩ := denotes_of_readValue hread
      have hnamed := Denotes.padded hopening hclosing (.text hbody)
      rcases hend with ⟨hclose, rfl⟩ | ⟨next, more, hcomma, -, hmore, rfl⟩
      · obtain ⟨blanks, hblanks, rfl⟩ := exists_blanks hclose
        exact ⟨[⟨opening ++ ('"' :: body ++ ['"']) ++ closing, k, text ++ blanks, v⟩], by simp,
          by simpa using hnamed, by simpa using hdenotes.append hblanks, by simp [Field.chars], rfl⟩
      · obtain ⟨blanks, hblanks, rfl⟩ := exists_blanks hcomma
        obtain ⟨fields, hne, hnames, hvalues, rfl, rfl⟩ := fields_of_readFields hmore
        refine
          ⟨⟨opening ++ ('"' :: body ++ ['"']) ++ closing, k, text ++ blanks, v⟩ :: fields, by simp,
          ?_, ?_, ?_, rfl⟩
        · rw [List.forall_mem_cons]
          exact ⟨hnamed, hnames⟩
        · rw [List.forall_mem_cons]
          exact ⟨hdenotes.append hblanks, hvalues⟩
        · obtain ⟨next, more, rfl⟩ := List.exists_cons_of_ne_nil hne
          simp [Field.chars]

end

/-- The reader accepts the texts that denote a value, and reads them as that value. -/
theorem parse_eq_ok_iff : parse cs = .ok v ↔ Denotes cs v := by
  unfold parse
  rw [bind_eq_ok_iff]
  constructor
  · rintro ⟨⟨w, after⟩, hread, h⟩
    dsimp only at h
    split at h
    · next hblanks =>
        obtain rfl := Except.ok.inj h
        obtain ⟨text, rfl, hdenotes⟩ := denotes_of_readValue hread
        exact hdenotes.append (skipBlanks_eq_nil_iff.mp hblanks)
    · cases h
  · intro hdenotes
    obtain ⟨blanks, hblanks, hread⟩ :=
      hdenotes.reads (2 * cs.length + 2) [] (by omega) endsNumeral_nil
    rw [List.append_nil, List.append_nil] at hread
    refine ⟨_, hread, ?_⟩
    dsimp only
    rw [if_pos (skipBlanks_eq_nil_iff.mpr hblanks)]
    rfl

/-- Blanks at the end of a text make no difference to what it is read as. -/
theorem toOption_parse_append {blanks : List Char} (hblanks : Blanks blanks) (cs : List Char) :
    (parse (cs ++ blanks)).toOption = (parse cs).toOption := by
  apply Option.ext
  intro v
  rw [← eq_ok_iff_toOption, ← eq_ok_iff_toOption, parse_eq_ok_iff, parse_eq_ok_iff]
  exact ⟨fun h => h.of_append hblanks, fun h => h.append hblanks⟩

end NurseryRota.Json
