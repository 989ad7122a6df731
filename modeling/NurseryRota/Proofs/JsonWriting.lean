import NurseryRota.Json.Printer
import NurseryRota.Proofs.JsonDocuments

/-!
# What is written denotes its value

A value is written as a text that denotes it, compactly or laid out.  Only a numeral could be written as
something else, since its digits are kept as they are; the numerals of integers are proper.
-/

namespace NurseryRota.Json

/-! ## Strings -/

theorem exists_codeUnit {n : Nat} (h : n < 0x10000) :
    ∃ a b c d, (lowDigits 16 4 n).map hexDigit = [a, b, c, d] ∧ codeUnit? a b c d = some n := by
  have hdigits : ∀ m, hexValue? (hexDigit (m % 16)) = some (m % 16) := fun m =>
    hexValue?_hexDigit (Nat.mod_lt m (by decide))
  refine ⟨_, _, _, _, rfl, ?_⟩
  have hvalue : ofDigits 16 (lowDigits 16 4 n) = n := by
    rw [ofDigits_lowDigits]
    exact Nat.mod_eq_of_lt h
  simp only [codeUnit?, List.mapM_cons, List.mapM_nil, hdigits]
  exact congrArg some hvalue

theorem spells_escape {cs s : List Char} (c : Char) (h : Spells cs s) :
    Spells (escape c ++ cs) (c :: s) := by
  unfold escape
  split_ifs with hquote hslash hn hr ht hb hf hcontrol
  · exact .short (by rw [hquote]; rfl) h
  · exact .short (by rw [hslash]; rfl) h
  · exact .short (by rw [hn]; rfl) h
  · exact .short (by rw [hr]; rfl) h
  · exact .short (by rw [ht]; rfl) h
  · exact .short (by rw [hb]; rfl) h
  · exact .short (by rw [hf]; rfl) h
  · obtain ⟨x, y, z, w, hunit, hvalue⟩ := exists_codeUnit (n := c.toNat) (by omega)
    have hspells := Spells.unit hvalue (by simp [isLeading]; omega) (by simp [isTrailing]; omega) h
    rw [Char.ofNat_toNat] at hspells
    rw [hunit]
    exact hspells
  · exact .plain hquote hslash (Nat.le_of_not_lt hcontrol) h

theorem spells_escaped (s : List Char) : Spells (s.flatMap escape) s := by
  induction s with
  | nil => exact .nil
  | cons c s ih =>
      rw [List.flatMap_cons]
      exact spells_escape c ih

/-- Every string is written as a text that denotes it, also one that has no characters to denote. -/
theorem spelled_quoted (t : JsonText) : Spelled (quoted t) (text t) := by
  cases t with
  | some s => exact .text (.chars (spells_escaped s))
  | none =>
      have hescaped : Escaped "\\ud800".toList := .unit rfl .nil
      refine .text (.unpaired hescaped ?_)
      intro s hs
      cases hs with
      | plain quote escape control rest => exact absurd rfl escape
      | short known rest => cases known
      | unit hex leading trailing rest =>
          cases hex
          cases leading

/-! ## Integers -/

theorem digits_toDigits (n : Nat) : Digits (Nat.toDigits 10 n) :=
  ⟨Nat.toDigits_ne_nil, fun _ hc => Nat.isDigit_of_mem_toDigits (by decide) (by decide) hc⟩

/-- No decimal digits begin with a zero, except those of zero itself. -/
theorem eq_zero_of_head_toDigits {n : Nat} (h : (Nat.toDigits 10 n).head? = some '0') : n = 0 := by
  induction n using Nat.strong_induction_on with
  | _ n ih =>
      by_cases hsmall : n < 10
      · rw [Nat.toDigits_of_lt_base hsmall] at h
        have hall : ∀ n < 10, [Nat.digitChar n].head? = some '0' → n = 0 := by decide
        exact hall n hsmall h
      · have hlarge : 10 ≤ n := Nat.le_of_not_lt hsmall
        rw [Nat.toDigits_of_base_le (by decide) hlarge,
          List.head?_append_of_ne_nil _ Nat.toDigits_ne_nil] at h
        have hzero := ih (n / 10) (by omega) h
        omega

theorem spellsNumeral_ofInt (n : Int) :
    SpellsNumeral (Numeral.mk (n < 0) (Nat.toDigits 10 n.natAbs) [] none).chars
      ⟨n < 0, Nat.toDigits 10 n.natAbs, [], none⟩ := by
  refine .mk (digits_toDigits _) ?_ (by simp) .absent
  intro h
  rw [eq_zero_of_head_toDigits h]
  rfl

/-! ## Values -/

/-- Every numeral in the value is written as a text that spells it. -/
inductive Proper : Json → Prop
  | null : Proper null
  | bool (b : Bool) : Proper (bool b)
  | number {n : Numeral} (numeral : SpellsNumeral n.chars n) : Proper (number n)
  | text (t : JsonText) : Proper (text t)
  | array {items : List Json} (proper : ∀ v ∈ items, Proper v) : Proper (array items)
  | object {fields : List (JsonText × Json)} (proper : ∀ f ∈ fields, Proper f.2) :
      Proper (object fields)

@[simp] theorem proper_array_iff {items : List Json} :
    Proper (array items) ↔ ∀ v ∈ items, Proper v := by
  constructor
  · rintro ⟨⟩
    assumption
  · exact .array

@[simp] theorem proper_object_iff {fields : List (JsonText × Json)} :
    Proper (object fields) ↔ ∀ f ∈ fields, Proper f.2 := by
  constructor
  · rintro ⟨⟩
    assumption
  · exact .object

@[simp] theorem proper_ofInt (n : Int) : Proper (ofInt n) := .number (spellsNumeral_ofInt n)

@[simp] theorem proper_ofText (s : String) : Proper (ofText s) := .text _

@[simp] theorem proper_ofFields {fields : List (String × Json)} :
    Proper (ofFields fields) ↔ ∀ f ∈ fields, Proper f.2 := by
  rw [ofFields, proper_object_iff, List.forall_mem_map]

theorem compactItems_eq (items : List Json) : compactItems items = listed (items.map compact) := by
  induction items with
  | nil => rfl
  | cons v items ih =>
      cases items with
      | nil => simp [compactItems]
      | cons w items => simpa [compactItems] using ih

theorem compactFields_eq (fields : List (JsonText × Json)) :
    compactFields fields = listed (fields.map fun f => quoted f.1 ++ ':' :: f.2.compact) := by
  induction fields with
  | nil => rfl
  | cons f fields ih =>
      cases fields with
      | nil => simp [compactFields]
      | cons g fields => simpa [compactFields] using ih

theorem prettyItems_eq (depth : Nat) (items : List Json) :
    prettyItems depth items = listed (items.map fun v => newLine depth ++ v.pretty depth) := by
  induction items with
  | nil => rfl
  | cons v items ih =>
      cases items with
      | nil => simp [prettyItems]
      | cons w items => simpa [prettyItems] using ih

theorem prettyFields_eq (depth : Nat) (fields : List (JsonText × Json)) :
    prettyFields depth fields = listed (fields.map fun f =>
      (newLine depth ++ quoted f.1) ++ ':' :: (' ' :: f.2.pretty depth)) := by
  induction fields with
  | nil => rfl
  | cons f fields ih =>
      cases fields with
      | nil => simp [prettyFields]
      | cons g fields => simpa [prettyFields] using ih

section Layout

variable {after : List Char} {fields : List (JsonText × Json)} {items : List Json}
  {write : Json → List Char} {writeName : JsonText → List Char}

/-- What stands behind the last text of a list is a part of that text. -/
theorem listed_concat_append (texts : List (List Char)) (last after : List Char) :
    listed (texts ++ [last ++ after]) = listed (texts ++ [last]) ++ after := by
  induction texts with
  | nil => simp
  | cons text texts ih =>
      cases texts with
      | nil => simp
      | cons next texts => simpa using ih

/-- Items are written as an array however each of them is written, and with blanks before the closing
bracket. -/
theorem spelled_items (hne : items ≠ []) (hitems : ∀ v ∈ items, Denotes (write v) v)
    (hafter : Blanks after) :
    Spelled ('[' :: (listed (items.map write) ++ after) ++ [']']) (array items) := by
  obtain ⟨more, last, rfl⟩ := (List.eq_nil_or_concat' items).resolve_left hne
  rw [List.forall_mem_append, List.forall_mem_singleton] at hitems
  let written := more.map (fun v => (write v, v)) ++ [(write last ++ after, last)]
  have hdenoted : ∀ i ∈ written, Denotes i.1 i.2 := by
    rw [List.forall_mem_append, List.forall_mem_singleton, List.forall_mem_map]
    exact ⟨hitems.1, hitems.2.append hafter⟩
  have hspelled := Spelled.array (by simp [written]) hdenoted
  simpa [written, Function.comp_def, listed_concat_append] using hspelled

/-- Fields are written as an object however their names and values are written. -/
theorem spelled_fields (hne : fields ≠ [])
    (hnames : ∀ f ∈ fields, Denotes (writeName f.1) (text f.1))
    (hvalues : ∀ f ∈ fields, Denotes (write f.2) f.2) (hafter : Blanks after) :
    Spelled ('{' :: (listed (fields.map fun f => writeName f.1 ++ ':' :: write f.2) ++ after) ++ ['}'])
      (object fields) := by
  obtain ⟨more, last, rfl⟩ := (List.eq_nil_or_concat' fields).resolve_left hne
  rw [List.forall_mem_append, List.forall_mem_singleton] at hnames hvalues
  let written := more.map (fun f => Field.mk (writeName f.1) f.1 (write f.2) f.2) ++
    [⟨writeName last.1, last.1, write last.2 ++ after, last.2⟩]
  have hnamed : ∀ f ∈ written, Denotes f.name (text f.key) := by
    rw [List.forall_mem_append, List.forall_mem_singleton, List.forall_mem_map]
    exact hnames
  have hdenoted : ∀ f ∈ written, Denotes f.text f.value := by
    rw [List.forall_mem_append, List.forall_mem_singleton, List.forall_mem_map]
    exact ⟨hvalues.1, hvalues.2.append hafter⟩
  have hspelled := Spelled.object (by simp [written]) hnamed hdenoted
  have hlast := listed_concat_append (more.map fun f => writeName f.1 ++ ':' :: write f.2)
    (writeName last.1 ++ ':' :: write last.2) after
  rw [List.append_assoc, List.cons_append] at hlast
  simpa [written, Function.comp_def, Field.chars, Field.entry, hlast] using hspelled

end Layout

/-- A value is written compactly as a text that denotes it. -/
theorem Proper.spelled_compact {v : Json} (h : Proper v) : Spelled v.compact v := by
  induction h with
  | null => exact .null
  | bool b => exact .bool b
  | number numeral => exact .number numeral
  | text t => exact spelled_quoted t
  | @array items _ ih =>
      rw [compact, compactItems_eq]
      by_cases hne : items = []
      · subst hne
        exact .emptyArray blanks_nil
      · have hspelled := spelled_items hne (fun v hv => (ih v hv).denotes) blanks_nil
        rwa [List.append_nil] at hspelled
  | @object fields _ ih =>
      rw [compact, compactFields_eq]
      by_cases hne : fields = []
      · subst hne
        exact .emptyObject blanks_nil
      · have hspelled := spelled_fields hne (fun f _ => (spelled_quoted f.1).denotes)
          (fun f hf => (ih f hf).denotes) blanks_nil
        rwa [List.append_nil] at hspelled

theorem blanks_newLine (depth : Nat) : Blanks (newLine depth) := by
  intro c hc
  rcases List.mem_cons.mp hc with rfl | hc
  · rfl
  · rw [List.eq_of_mem_replicate hc]
    rfl

theorem Spelled.denotes_behind {before cs : List Char} {v : Json} (h : Spelled cs v)
    (hbefore : Blanks before) : Denotes (before ++ cs) v := by
  have hpadded := Denotes.padded hbefore blanks_nil h
  rwa [List.append_nil] at hpadded

/-- A value is laid out, at any depth, as a text that denotes it. -/
theorem Proper.spelled_pretty {v : Json} (h : Proper v) (depth : Nat) :
    Spelled (v.pretty depth) v := by
  induction h generalizing depth with
  | null => exact .null
  | bool b => exact .bool b
  | number numeral => exact .number numeral
  | text t => exact spelled_quoted t
  | @array items _ ih =>
      cases items with
      | nil => exact .emptyArray blanks_nil
      | cons v items =>
          rw [pretty, prettyItems_eq]
          · exact spelled_items (List.cons_ne_nil v items)
              (fun v hv => (ih v hv (depth + 1)).denotes_behind (blanks_newLine (depth + 1)))
              (blanks_newLine depth)
          · exact List.cons_ne_nil v items
  | @object fields _ ih =>
      cases fields with
      | nil => exact .emptyObject blanks_nil
      | cons f fields =>
          let write : Json → List Char := fun v => [' '] ++ v.pretty (depth + 1)
          let writeName : JsonText → List Char := fun k => newLine (depth + 1) ++ quoted k
          have hspace : Blanks [' '] := List.forall_mem_singleton.mpr rfl
          have hvalues : ∀ g ∈ f :: fields, Denotes (write g.2) g.2 := fun g hg =>
            (ih g hg (depth + 1)).denotes_behind hspace
          have hnames : ∀ g ∈ f :: fields, Denotes (writeName g.1) (.text g.1) := fun g _ =>
            (spelled_quoted g.1).denotes_behind (blanks_newLine (depth + 1))
          rw [pretty, prettyFields_eq]
          · exact spelled_fields (List.cons_ne_nil f fields) hnames hvalues (blanks_newLine depth)
          · exact List.cons_ne_nil f fields

end NurseryRota.Json
