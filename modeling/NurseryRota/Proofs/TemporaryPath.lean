import Mathlib.Data.List.DropRight
import Mathlib.Data.List.SplitBy
import NurseryRota.Journal
import NurseryRota.Proofs.DiskWalks

/-!
# The temporary file of a journal

The temporary file stands in the journal's directory under the journal's name with another
extension.  That name is never the journal's own: a name that ends in the temporary extension
has it replaced by a longer one.  Preparing a replacement therefore leaves the journal alone.
-/

namespace NurseryRota

namespace Path

/-- The characters in front of the last part of a path: nothing, or a text that ends in a slash. -/
def EndsDirectory (before : List Char) : Prop := ∀ c ∈ before.getLast?, c = '/'

variable {before : List Char} {name : String}

theorem parts_append_name (hbefore : EndsDirectory before) (hslash : '/' ∉ name.toList)
    (hne : name.toList ≠ []) :
    parts (String.ofList before ++ name) = parts (String.ofList before) ++ [name] := by
  have hsplit : (before ++ name.toList).splitBy (fun a b => a ≠ '/' && b ≠ '/') =
      before.splitBy (fun a b => a ≠ '/' && b ≠ '/') ++ [name.toList] := by
    rw [List.splitBy_append]
    · congr 1
      apply List.splitBy_of_isChain hne
      apply List.Pairwise.isChain
      apply List.pairwise_of_forall_mem_list
      intro a ha b hb
      have hanot : a ≠ '/' := fun h => hslash (h ▸ ha)
      have hbnot : b ≠ '/' := fun h => hslash (h ▸ hb)
      simp [hanot, hbnot]
    · intro c hc _ _
      simp [hbefore c hc]
  have hname : name.toList ≠ ['/'] := by
    intro h
    apply hslash
    rw [h]
    simp
  unfold parts
  rw [String.toList_append, String.toList_ofList, hsplit, List.filter_append, List.map_append]
  simp [hname]

theorem getLast?_steps_append_name (hbefore : EndsDirectory before) (hslash : '/' ∉ name.toList)
    (hne : name.toList ≠ []) (hending : (ofText (String.ofList before ++ name)).ending = .name) :
    (ofText (String.ofList before ++ name)).steps.getLast? = some (.down name) := by
  have hparts := parts_append_name hbefore hslash hne
  unfold ofText at hending ⊢
  dsimp only at hending ⊢
  rw [hparts] at hending ⊢
  rw [List.getLast?_concat] at hending
  split at hending
  · cases hending
  · next hdots =>
      simp only [Option.some.injEq, Bool.or_eq_true, decide_eq_true_eq, not_or] at hdots
      have hstep : step? name = some (.down name) := by
        unfold step?
        rw [if_neg hdots.1, if_neg hdots.2]
      rw [List.filterMap_append, List.filterMap_cons_some hstep, List.filterMap_nil,
        List.getLast?_concat]

theorem exists_name {s : String} (hne : s.toList ≠ []) (hending : (ofText s).ending = .name) :
    ∃ before name, s = String.ofList before ++ name ∧ EndsDirectory before ∧
      '/' ∉ name.toList ∧ name.toList ≠ [] := by
  refine ⟨s.toList.rdropWhile (· ≠ '/'), String.ofList (s.toList.rtakeWhile (· ≠ '/')), ?_, ?_, ?_,
    ?_⟩
  · apply String.toList_injective
    rw [String.toList_append, String.toList_ofList, String.toList_ofList,
      List.rdropWhile_append_rtakeWhile]
  · intro c hc
    by_contra hcne
    have hnil : s.toList.rdropWhile (fun c => decide (c ≠ '/')) ≠ [] := by
      intro h
      rw [h] at hc
      cases hc
    have hlast := List.rdropWhile_last_not _ _ hnil
    rw [List.getLast?_eq_some_getLast hnil] at hc
    cases hc
    exact hlast (by simpa using hcne)
  · intro hmem
    rw [String.toList_ofList] at hmem
    have := List.mem_rtakeWhile_imp hmem
    simp at this
  · rw [String.toList_ofList]
    intro hnil
    rw [List.rtakeWhile_eq_nil_iff] at hnil
    have hslash : s.toList.getLast? = some '/' := by
      rw [List.getLast?_eq_some_getLast hne]
      have := hnil hne
      simpa using this
    unfold ofText at hending
    dsimp only at hending
    rw [hslash] at hending
    split at hending
    · cases hending
    · simp at hending

/-! ## Extensions -/

theorem withExtension_eq (hbefore : EndsDirectory before) (hslash : '/' ∉ name.toList)
    (hne : name.toList ≠ []) (hending : (ofText (String.ofList before ++ name)).ending = .name)
    (extension : String) :
    (ofText (String.ofList before ++ name)).withExtension extension =
      ofText (String.ofList before ++ renamed name extension) := by
  have htext : (ofText (String.ofList before ++ name)).text = String.ofList before ++ name := rfl
  have htake : (String.ofList before ++ name).toList.take
      ((String.ofList before ++ name).length - name.length) = before := by
    rw [String.toList_append, String.toList_ofList]
    apply List.take_left'
    rw [String.length_append, String.length_ofList]
    omega
  unfold withExtension
  rw [hending, getLast?_steps_append_name hbefore hslash hne hending]
  dsimp only
  rw [htext, htake]

theorem slash_not_mem_stem (hslash : '/' ∉ name.toList) : '/' ∉ (stem name).toList := by
  unfold stem
  dsimp only
  split
  · exact hslash
  · next rest _ =>
      intro hmem
      rw [String.toList_ofList, List.mem_reverse] at hmem
      have hdrop := List.mem_of_mem_drop hmem
      have hreverse := (List.dropWhile_sublist _).subset hdrop
      exact hslash (List.mem_reverse.mp hreverse)

theorem stem_temporary (base : String) :
    stem (base ++ "." ++ "journal.tmp") = base ++ ".journal" := by
  have hreverse : (base ++ "." ++ "journal.tmp").toList.reverse =
      "pmt".toList ++ '.' :: ("lanruoj.".toList ++ base.toList.reverse) := by
    rw [String.toList_append, String.toList_append, List.reverse_append, List.reverse_append]
    rfl
  have hdrop : ((base ++ "." ++ "journal.tmp").toList.reverse.dropWhile (· ≠ '.')).drop 1 =
      "lanruoj.".toList ++ base.toList.reverse := by
    rw [hreverse]
    rfl
  have hback : ("lanruoj.".toList ++ base.toList.reverse).reverse =
      base.toList ++ ".journal".toList := by
    rw [List.reverse_append, List.reverse_reverse]
    rfl
  unfold stem
  dsimp only
  rw [hdrop]
  split
  · next hnil => cases hnil
  · rw [hback, ← String.toList_append, String.ofList_toList]

/-- No name is what it becomes under the temporary extension. -/
theorem stem_append_temporary_ne (name : String) :
    stem name ++ "." ++ "journal.tmp" ≠ name := by
  intro h
  have hstem := stem_temporary (stem name)
  rw [h] at hstem
  have hlength := congrArg String.length hstem
  rw [String.length_append] at hlength
  have : ".journal".length = 8 := rfl
  omega

end Path

/-- A file opened at the temporary path of a journal is not the journal. -/
theorem Disk.ne_of_openFile_temporary {d d' d'' : Disk} {s : String} {l t : Location}
    (hlocate : d.locate (Path.ofText s) = .ok l) (hending : (Path.ofText s).ending = .name)
    (hopen : d'.openFile ((Path.ofText s).withExtension "journal.tmp") = (d'', .ok t)) :
    t ≠ l := by
  obtain ⟨hrefusal, hwalk⟩ := locate_eq_ok_iff.mp hlocate
  have hne : s.toList ≠ [] := by
    intro hnil
    have hempty : s = "" := String.toList_eq_nil_iff.mp hnil
    subst hempty
    cases hrefusal
  obtain ⟨before, name, rfl, hbefore, hslash, hname⟩ := Path.exists_name hne hending
  rw [Path.withExtension_eq hbefore hslash hname hending] at hopen
  obtain ⟨htemporary, hnamed, -, -⟩ := openFile_eq_ok hopen
  obtain ⟨-, htemporaryWalk⟩ := locate_eq_ok_iff.mp htemporary
  have hjournalLast := Path.getLast?_steps_append_name hbefore hslash hname hending
  obtain ⟨m, rfl⟩ := exists_push_of_walk hjournalLast hwalk
  unfold Path.renamed at hnamed htemporaryWalk
  split at hnamed
  · have hup : '/' ∉ "..".toList := by decide
    have hparts := Path.parts_append_name hbefore hup (by decide)
    unfold Path.ofText at hnamed
    dsimp only at hnamed
    rw [hparts, List.getLast?_concat] at hnamed
    cases hnamed
  · next hdot =>
      rw [if_neg hdot] at htemporaryWalk
      have hnewSlash : '/' ∉ (Path.stem name ++ "." ++ "journal.tmp").toList := by
        have hstem := Path.slash_not_mem_stem hslash
        rw [String.toList_append, String.toList_append, List.mem_append, List.mem_append]
        rintro ((h | h) | h)
        · exact hstem h
        · revert h
          decide
        · revert h
          decide
      have hnewNe : (Path.stem name ++ "." ++ "journal.tmp").toList ≠ [] := by
        rw [String.toList_append]
        apply List.append_ne_nil_of_right_ne_nil
        decide
      have hlast := Path.getLast?_steps_append_name hbefore hnewSlash hnewNe hnamed
      obtain ⟨n, rfl⟩ := exists_push_of_walk hlast htemporaryWalk
      intro heq
      exact Path.stem_append_temporary_ne name (Array.push_eq_push.mp heq).1

end NurseryRota
