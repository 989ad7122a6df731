import Mathlib.Data.List.Perm.Basic
import NurseryRota.Edit.Json
import NurseryRota.Proofs.JsonWriting

/-!
# Records and their values read back

A record is found in an object that has each of its fields once, whatever the order and whatever
stands beside them, and in no object that lacks one or has one twice.  Records, choices and tagged
records, and the values that they are made of, are read as what they were written for.
-/

namespace NurseryRota

namespace Json

/-! ## Records -/

/-- The fields with their names as an object has them. -/
def namedFields (fields : List (String × Json)) : List (JsonText × Json) :=
  fields.map fun f => (some f.1.toList, f.2)

variable {known : List (String × Json)} {more fields : List (JsonText × Json)} {name : String}
  {names : List String}

theorem valuesOf_perm {fields' : List (JsonText × Json)} (name : String) (h : fields.Perm fields') :
    (valuesOf name fields).Perm (valuesOf name fields') :=
  (h.filter _).map _

theorem valuesOf_append :
    valuesOf name (fields ++ more) = valuesOf name fields ++ valuesOf name more := by
  simp [valuesOf]

theorem valuesOf_eq_nil (h : ∀ f ∈ fields, plain? f.1 ≠ some name) : valuesOf name fields = [] := by
  simpa [valuesOf] using h

@[simp] theorem plain?_toList (s : String) : plain? (some s.toList) = some s := by
  simp [plain?]

theorem plain?_ne_of_mem_namedFields {f : JsonText × Json} (h : name ∉ known.map Prod.fst)
    (hf : f ∈ namedFields known) : plain? f.1 ≠ some name := by
  intro hname
  obtain ⟨field, hfield, rfl⟩ := List.mem_map.mp hf
  rw [plain?_toList, Option.some.injEq] at hname
  exact h (hname ▸ List.mem_map_of_mem hfield)

theorem valuesOf_namedFields_eq_nil (h : name ∉ known.map Prod.fst) :
    valuesOf name (namedFields known) = [] :=
  valuesOf_eq_nil fun _ hf => plain?_ne_of_mem_namedFields h hf

theorem valuesOf_namedFields {v : Json} (hnodup : (known.map Prod.fst).Nodup)
    (hmem : (name, v) ∈ known) : valuesOf name (namedFields known) = [v] := by
  obtain ⟨before, after, rfl⟩ := List.append_of_mem hmem
  rw [List.map_append, List.map_cons, List.nodup_append, List.nodup_cons] at hnodup
  obtain ⟨-, ⟨hafter, -⟩, hdisjoint⟩ := hnodup
  have hbefore : name ∉ before.map Prod.fst := fun h =>
    hdisjoint name h name List.mem_cons_self rfl
  have hsingle : valuesOf name (namedFields [(name, v)]) = [v] := by
    simp [valuesOf, namedFields]
  have hsplit : namedFields (before ++ (name, v) :: after) =
      namedFields before ++ (namedFields [(name, v)] ++ namedFields after) := by
    simp [namedFields]
  rw [hsplit, valuesOf_append, valuesOf_append, hsingle, valuesOf_namedFields_eq_nil hbefore,
    valuesOf_namedFields_eq_nil hafter]
  rfl

/-- The fields are the known ones, once each and in some order, and others of other names. -/
inductive Extends (known : List (String × Json)) (fields : List (JsonText × Json)) : Prop
  | mk {more : List (JsonText × Json)} (order : fields.Perm (namedFields known ++ more))
      (unknown : ∀ f ∈ more, ∃ name, plain? f.1 = some name ∧ name ∉ known.map Prod.fst) :
      Extends known fields

theorem Extends.refl (known : List (String × Json)) : Extends known (namedFields known) :=
  @Extends.mk known _ [] (by rw [List.append_nil]) fun _ hf => nomatch hf

theorem Extends.single?_eq {v : Json} (h : Extends known fields) (hnodup : (known.map Prod.fst).Nodup)
    (hmem : (name, v) ∈ known) : single? name fields = some v := by
  obtain @⟨more, order, unknown⟩ := h
  have hunknown : ∀ f ∈ more, plain? f.1 ≠ some name := by
    intro f hf hname
    obtain ⟨other, hother, hunknown⟩ := unknown f hf
    rw [hname, Option.some.injEq] at hother
    exact hunknown (hother ▸ List.mem_map_of_mem hmem)
  have hperm := valuesOf_perm name order
  rw [valuesOf_append, valuesOf_namedFields hnodup hmem, valuesOf_eq_nil hunknown,
    List.append_nil] at hperm
  rw [single?, List.perm_singleton.mp hperm]

theorem Extends.isSome (h : Extends known fields) : fields.all (fun f => f.1.isSome) = true := by
  obtain ⟨order, unknown⟩ := h
  rw [List.all_eq_true]
  intro f hf
  rcases List.mem_append.mp (order.mem_iff.mp hf) with hf | hf
  · obtain ⟨field, -, rfl⟩ := List.mem_map.mp hf
    rfl
  · obtain ⟨name, hname, -⟩ := unknown f hf
    obtain ⟨s, hs, -⟩ := Option.map_eq_some_iff.mp hname
    rw [hs]
    rfl

theorem Extends.record?_eq (h : Extends known fields) (hnodup : (known.map Prod.fst).Nodup) :
    record? (known.map Prod.fst) (object fields) = some (known.map Prod.snd) := by
  rw [record?, if_pos h.isSome]
  exact mapM_map_eq_some fun f hf => h.single?_eq hnodup hf

/-- A field that is missing or repeated leaves no record. -/
theorem record?_eq_none (hname : name ∈ names) (hcount : (valuesOf name fields).length ≠ 1) :
    record? names (object fields) = none := by
  have hsingle : single? name fields = none := by
    unfold single?
    split
    · next v hvalues => exact absurd (congrArg List.length hvalues) hcount
    · rfl
  rw [record?, mapM_eq_none hname hsingle]
  split <;> rfl

theorem record?_ofFields (hnodup : (known.map Prod.fst).Nodup) :
    record? (known.map Prod.fst) (ofFields known) = some (known.map Prod.snd) :=
  (Extends.refl known).record?_eq hnodup

/-! ## Values -/

theorem ofDecimal_toDigits (n : Nat) : ofDecimal (Nat.toDigits 10 n) = n := by
  rw [ofDecimal_eq_ofDigitChars, Nat.ofDigitChars_ten_toDigits]

@[simp] theorem int?_ofInt (n : Int) : (ofInt n).int? = some n := by
  simp only [ofInt, int?, Numeral.int?, ofDecimal_toDigits]
  by_cases hn : n < 0
  · have hmagnitude : n.natAbs ≠ 0 := by omega
    have hvalue : -(n.natAbs : Int) = n := by omega
    rw [if_neg (by simp), decide_eq_true hn, if_neg (by simp), if_neg hmagnitude, hvalue]
  · have hvalue : (n.natAbs : Int) = n := by omega
    rw [if_neg (by simp), decide_eq_false hn, if_pos (by simp), hvalue]

@[simp] theorem word?_ofWord (w : Int16) : word? (ofWord w) = some w := by
  have hlow := w.le_toInt
  have hhigh := w.toInt_lt
  simp [word?, ofWord]
  omega

@[simp] theorem text?_ofText (s : String) : (ofText s).text? = some s := plain?_toList s

/-! ## Choices and tagged records -/

@[simp] theorem choice?_ofFields (name : String) (v : Json) :
    choice? (ofFields [(name, v)]) = some (name, some v) := by
  simp [ofFields, choice?]

@[simp] theorem choice?_ofText (s : String) : choice? (ofText s) = some (s, none) := by
  rw [ofText, choice?, plain?_toList, Option.map_some]

theorem tagged?_ofFields {tag kind : String} (hnodup : (tag :: known.map Prod.fst).Nodup) :
    tagged? tag (ofFields ((tag, ofText kind) :: known)) = some (kind, ofFields known) := by
  have hsingle : single? tag (namedFields ((tag, ofText kind) :: known)) = some (ofText kind) :=
    (Extends.refl _).single?_eq hnodup List.mem_cons_self
  have hrest : (namedFields known).filter (fun f => plain? f.1 ≠ some tag) = namedFields known :=
    List.filter_eq_self.mpr fun f hf =>
      decide_eq_true (plain?_ne_of_mem_namedFields (List.nodup_cons.mp hnodup).1 hf)
  have hfilter : (namedFields ((tag, ofText kind) :: known)).filter
      (fun f => plain? f.1 ≠ some tag) = namedFields known := by
    rw [← hrest, namedFields, List.map_cons, List.filter_cons_of_neg (by simp), namedFields]
  change tagged? tag (object (namedFields ((tag, ofText kind) :: known))) = _
  rw [tagged?, hsingle, hfilter]
  simp [ofFields, namedFields]

end Json

/-! ## Identifiers and roles -/

namespace Uuid

theorem length_hexDigits (u : Uuid) : u.hexDigits.length = 32 := by
  rw [hexDigits, List.length_map, length_lowDigits]

theorem ofHexDigits?_hexDigits (u : Uuid) : ofHexDigits? u.hexDigits = some u := by
  have hvalues : u.hexDigits.mapM hexValue? = some ((lowDigits 16 32 u.toNat).map id) :=
    mapM_map_eq_some fun d hd => hexValue?_hexDigit (lt_of_mem_lowDigits (by decide) 32 u.toNat d hd)
  rw [ofHexDigits?, if_pos u.length_hexDigits, hvalues, List.map_id, Option.map_some,
    ofDigits_lowDigits]
  exact congrArg some (Uuid.ext ((Nat.mod_mod _ _).trans (Nat.mod_eq_of_lt u.toNat_lt)))

theorem ofHyphenated?_groups {a b c d e : List Char} (ha : a.length = 8) (hb : b.length = 4)
    (hc : c.length = 4) (hd : d.length = 4) (he : e.length = 12) :
    ofHyphenated? (a ++ '-' :: b ++ '-' :: c ++ '-' :: d ++ '-' :: e) =
      ofHexDigits? (a ++ b ++ c ++ d ++ e) := by
  unfold ofHyphenated?
  simp [List.drop_append, List.getElem?_append, List.drop_eq_nil_of_le, ha, hb, hc, hd, he]

/-- The groups of the hyphenated form are read as the digits that were put into groups. -/
theorem ofHyphenated?_chars (u : Uuid) : ofHyphenated? u.chars = ofHexDigits? u.hexDigits := by
  have hlength := u.length_hexDigits
  unfold chars
  generalize u.hexDigits = ds at hlength
  have hgroups : ds.take 8 ++ (ds.drop 8).take 4 ++ (ds.drop 12).take 4 ++ (ds.drop 16).take 4 ++
      ds.drop 20 = ds := by
    rw [← List.take_add, ← List.take_add, ← List.take_add, List.take_append_drop]
  rw [ofHyphenated?_groups (by simp [hlength]) (by simp [hlength]) (by simp [hlength])
    (by simp [hlength]) (by simp [hlength]), hgroups]

theorem ofText?_text (u : Uuid) : ofText? u.text = some u := by
  have hlength : u.chars.length = 36 := by
    simp [chars, u.length_hexDigits]
  rw [ofText?, text, String.toList_ofList, ofChars?, hlength]
  exact u.ofHyphenated?_chars.trans u.ofHexDigits?_hexDigits

end Uuid

namespace Json

@[simp] theorem uuid?_ofUuid (u : Uuid) : uuid? (ofUuid u) = some u := by
  simp [uuid?, ofUuid, u.ofText?_text]

end Json

@[simp] theorem Role.ofJson?_toJson (r : Role) : Role.ofJson? r.toJson = some r := by
  cases r with
  | staff => rfl
  | child b => cases b <;> rfl

end NurseryRota
