import Mathlib.Algebra.GroupWithZero.Nat
import NurseryRota.Proofs.ReportByDay

/-!
# Merging reports

A report forgets nothing but the order in which its entries came, and of that it keeps the order of
entries with one key.  Parts may therefore be merged in groups, groups of groups included, as long
as they stay in one order: sorting a part first moves no entry past another of its key.  The order
of the parts matters only where different entries share a key.
-/

namespace NurseryRota

/-- Reports put into groups, and groups into groups again. -/
inductive Grouping
  | part (r : Report)
  | group (members : List Grouping)

namespace Grouping

/-- The report that merging every group gives, the innermost groups first. -/
def merged : Grouping → Report
  | part r => r
  | group members => .merge (members.map merged)

/-- The reports in their order, out of all groups. -/
def parts : Grouping → List Report
  | part r => [r]
  | group members => members.flatMap parts

end Grouping

namespace Summary

/-- Counts added kind by kind. -/
def total (summaries : List Summary) : Summary :=
  ⟨(summaries.map conflicts).sum, (summaries.map shortages).sum, (summaries.map rejected).sum⟩

end Summary

namespace Report

/-- The same entries in the order of a report. -/
def sorted (r : Report) : Report := ofEntries r.findings r.rejected

theorem sorted_ofEntries (findings : List Finding) (rejected : List Rejection) :
    (ofEntries findings rejected).sorted = ofEntries findings rejected := by
  unfold sorted ofEntries
  rw [sortBy_of_pairwise (pairwise_sortBy Finding.key findings),
    sortBy_of_pairwise (pairwise_sortBy Rejection.key rejected)]

theorem merge_map_sorted (parts : List Report) : merge (parts.map sorted) = merge parts :=
  merge_map_ofEntries findings rejected parts

theorem merge_map_merge {α : Type*} (f : α → List Report) (groups : List α) :
    merge (groups.map fun g => merge (f g)) = merge (groups.flatMap f) := by
  have hgroups := merge_map_ofEntries (fun g => (f g).flatMap findings)
    (fun g => (f g).flatMap rejected) groups
  rw [← List.flatMap_assoc, ← List.flatMap_assoc] at hgroups
  exact hgroups

/-- A part that stands alone may be unsorted, so only its sorted form is a merged report. -/
theorem sorted_merged : (g : Grouping) → g.merged.sorted = merge g.parts
  | .part r => by simp [Grouping.merged, Grouping.parts, merge, sorted]
  | .group members => by
      have hmembers : members.map (fun g => g.merged.sorted) = members.map fun g => merge g.parts :=
        List.map_congr_left fun g _ => sorted_merged g
      calc (Grouping.group members).merged.sorted
          = (merge (members.map Grouping.merged)).sorted := by rw [Grouping.merged]
        _ = merge (members.map Grouping.merged) := sorted_ofEntries _ _
        _ = merge (members.map fun g => g.merged.sorted) := by
            rw [← merge_map_sorted, List.map_map]
            rfl
        _ = merge (members.map fun g => merge g.parts) := by rw [hmembers]
        _ = merge (members.flatMap Grouping.parts) := merge_map_merge _ _
        _ = merge (Grouping.group members).parts := by rw [Grouping.parts]

theorem merged_group (members : List Grouping) :
    (Grouping.group members).merged = merge (Grouping.group members).parts := by
  rw [← sorted_merged, Grouping.merged]
  exact (sorted_ofEntries _ _).symm

/-! ## What a merged report holds -/

section Entries

variable (findings : List Finding) (rejected : List Rejection)

theorem summary_ofEntries :
    (ofEntries findings rejected).summary = summary ⟨findings, rejected⟩ := by
  have hfindings : (sortBy Finding.key findings).Perm findings := sortBy_perm _ _
  unfold summary conflicts shortages ofEntries
  rw [(hfindings.filterMap _).length_eq, (hfindings.filterMap _).length_eq, length_sortBy]

theorem isClean_ofEntries_iff :
    (ofEntries findings rejected).isClean = true ↔ findings = [] ∧ rejected = [] := by
  rw [isClean_iff, ← List.length_eq_zero_iff, ← List.length_eq_zero_iff]
  unfold ofEntries
  rw [length_sortBy, length_sortBy, List.length_eq_zero_iff, List.length_eq_zero_iff]

end Entries

theorem summary_flatMap (parts : List Report) :
    summary ⟨parts.flatMap findings, parts.flatMap rejected⟩ =
      Summary.total (parts.map summary) := by
  unfold summary Summary.total conflicts shortages
  simp [List.filterMap_flatMap, List.length_flatMap, Function.comp_def]

/-- Where different findings have different keys, and different rejections too, parts may come in
any order. -/
theorem merge_of_perm {parts parts' : List Report} (hperm : parts'.Perm parts)
    (hfindings : ∀ f ∈ parts.flatMap findings, ∀ g ∈ parts.flatMap findings,
      f.key = g.key → f = g)
    (hrejected : ∀ r ∈ parts.flatMap rejected, ∀ q ∈ parts.flatMap rejected,
      r.key = q.key → r = q) :
    merge parts' = merge parts := by
  unfold merge ofEntries
  rw [sortBy_eq_of_perm (hperm.flatMap_right findings).symm hfindings,
    sortBy_eq_of_perm (hperm.flatMap_right rejected).symm hrejected]

/-- Merging in groups of any depth is merging the parts one after another, and sorting again changes
nothing.  A merged report with rejections added holds the entries of its parts and these rejections
and no others, each as often, so that it counts them all and is clean exactly if there are none.  The
order of the parts is not to be told from it, unless different entries share a key. -/
theorem merge_lossless (parts : List Report) (more : List Rejection) :
    (∀ members : List Grouping, (Grouping.group members).merged =
        merge (Grouping.group members).parts) ∧
      (∀ (findings : List Finding) (rejected : List Rejection),
        (ofEntries findings rejected).sorted = ofEntries findings rejected) ∧
      (merge parts).addRejections more =
        ofEntries (parts.flatMap findings) (parts.flatMap rejected ++ more) ∧
      ((merge parts).addRejections more).findings.Perm (parts.flatMap findings) ∧
      ((merge parts).addRejections more).rejected.Perm (parts.flatMap rejected ++ more) ∧
      ((merge parts).addRejections more).summary =
        Summary.total (parts.map summary ++ [⟨0, 0, more.length⟩]) ∧
      (((merge parts).addRejections more).isClean = true ↔
        (∀ p ∈ parts, p.isClean = true) ∧ more = []) ∧
      ∀ parts' : List Report, parts'.Perm parts →
        (∀ f ∈ parts.flatMap findings, ∀ g ∈ parts.flatMap findings, f.key = g.key → f = g) →
        (∀ r ∈ parts.flatMap rejected, ∀ q ∈ parts.flatMap rejected, r.key = q.key → r = q) →
        merge parts' = merge parts := by
  have hentries : (merge parts).addRejections more =
      ofEntries (parts.flatMap findings) (parts.flatMap rejected ++ more) :=
    addRejections_ofEntries _ _ more
  refine ⟨merged_group, sorted_ofEntries, hentries, ?_, ?_, ?_, ?_, fun _ => merge_of_perm⟩
  · rw [hentries]
    exact sortBy_perm _ _
  · rw [hentries]
    exact sortBy_perm _ _
  · have hsummary := summary_flatMap (parts ++ [⟨[], more⟩])
    rw [hentries, summary_ofEntries]
    simpa [summary, conflicts, shortages] using hsummary
  · rw [hentries, isClean_ofEntries_iff, List.append_eq_nil_iff, List.flatMap_eq_nil_iff,
      List.flatMap_eq_nil_iff]
    simp only [isClean_iff]
    exact ⟨fun h => ⟨fun p hp => ⟨h.1 p hp, h.2.1 p hp⟩, h.2.2⟩,
      fun h => ⟨fun p hp => (h.1 p hp).1, fun p hp => (h.1 p hp).2, h.2⟩⟩

/-- Two shortages of one window that differ in their numbers: the report keeps them in the order of
the parts, in groups or not, and with the parts exchanged it is another one.  The conflict and the
rejections have keys of their own, so reports of these may be exchanged. -/
theorem merge_lossless_ties :
    let wide : Finding := .shortage ⟨.ofNat 3, .monday, ⟨.monday, 480, 600⟩, 3, 1, 2⟩
    let narrow : Finding := .shortage ⟨.ofNat 3, .monday, ⟨.monday, 480, 600⟩, 2, 1, 1⟩
    let clash : Finding :=
      .conflict ⟨.ofNat 7, .monday, .ofNat 1, .ofNat 2, ⟨.monday, 480, 540⟩⟩
    let unknown : Rejection := ⟨.ofNat 5, .ofNat 9, .unknownMember⟩
    let late : Rejection := ⟨.ofNat 4, .ofNat 9, .invalidInterval (.minuteOutOfRange 1441)⟩
    let a : Report := ⟨[wide, clash], [unknown]⟩
    let b : Report := ⟨[narrow], []⟩
    let c : Report := ⟨[clash], [late]⟩
    (Grouping.group [.group [.part a], .group [.part b, .group []]]).merged = merge [a, b] ∧
      (merge [a, b]).findings.filter (fun f => f.key = wide.key) = [wide, narrow] ∧
      (merge [b, a]).findings.filter (fun f => f.key = wide.key) = [narrow, wide] ∧
      merge [c, ⟨[wide], [unknown]⟩] = merge [⟨[wide], [unknown]⟩, c] ∧
      ((merge [a, b]).addRejections [late]).summary = ⟨1, 2, 2⟩ := by
  intro wide narrow clash unknown late a b c
  obtain ⟨hgroups, -, -, -, -, hsummary, -, -⟩ := merge_lossless [a, b] [late]
  obtain ⟨-, -, -, -, -, -, -, hperm⟩ := merge_lossless [⟨[wide], [unknown]⟩, c] []
  have hparts : (Grouping.group [.group [.part a], .group [.part b, .group []]]).parts = [a, b] := by
    simp [Grouping.parts]
  refine ⟨hparts ▸ hgroups _, ?_, ?_, ?_, hsummary⟩
  · exact filter_key_sortBy _ _ _
  · exact filter_key_sortBy _ _ _
  · exact hperm [c, ⟨[wide], [unknown]⟩] (.swap _ _ _) (by decide) (by decide)

end Report

end NurseryRota
