import NurseryRota.Proofs.FrameRecovery
import NurseryRota.Proofs.TemporaryPath

/-!
# The file behind a journal

A journal is attached to its file when its path leads to the file over directories that are
there, and the next record goes to the file's end.  Opening attaches a journal to what was
recovered; a record adds to the file the bytes that reach it, whether it fails or not; a
replacement puts the new frames in the file's place, or leaves it as it was.
-/

namespace NurseryRota

/-- A path at which a disk can hold a journal: the way there can be made, and the place is that
of a file with the given bytes or free. -/
structure Disk.Admits (d : Disk) (p : Path) (held : Option Bytes) : Prop where
  text : ∃ s, p = Path.ofText s
  ending : p.ending = .name
  way : (d.makeWay p).2 = none
  place : ∃ l, (d.makeWay p).1.locate p = .ok l ∧ (d.makeWay p).1.node? l = held.map .file

namespace Journal

/-- The journal's handle writes at the end of the file that its path names. -/
structure Attached (d : Disk) (j : Journal) (content : Bytes) : Prop where
  text : ∃ s, j.path = Path.ofText s
  ending : j.path.ending = .name
  way : d.HasWay j.path
  located : d.locate j.path = .ok j.location
  file : d.node? j.location = some (.file content)
  cursor : j.cursor = .atEnd ∨ j.cursor = .fixed content.length

variable {d : Disk} {j : Journal} {content : Bytes}

namespace Attached

theorem not_directory (h : Attached d j content) : d.node? j.location ≠ some .directory :=
  Disk.not_directory_of_file h.file

theorem keep {d' : Disk} (h : Attached d j content) (hextends : d.Extends d')
    (hfile : d'.node? j.location = some (.file content)) : Attached d' j content where
  text := h.text
  ending := h.ending
  way := h.way.extends hextends
  located := Disk.locate_of_extends hextends h.located
  file := hfile
  cursor := h.cursor

theorem setContent {j' : Journal} {bytes : Bytes} (h : Attached d j content)
    (hpath : j'.path = j.path) (hlocation : j'.location = j.location)
    (hcursor : j'.cursor = .atEnd ∨ j'.cursor = .fixed bytes.length) :
    Attached (d.setContent j.location bytes) j' bytes := by
  have hextends := Disk.extends_setContent h.not_directory bytes
  constructor
  · rw [hpath]
    exact h.text
  · rw [hpath]
    exact h.ending
  · rw [hpath]
    exact h.way.extends hextends
  · rw [hpath, hlocation]
    exact Disk.locate_of_extends hextends h.located
  · rw [hlocation, Disk.node?_setContent h.not_directory, if_pos rfl]
  · exact hcursor

theorem disk_write (h : Attached d j content) (bytes : Bytes) :
    (j.write d bytes).1 = d.setContent j.location (content ++ bytes) := by
  unfold Journal.write
  rw [Disk.content_of_file h.file]
  rcases h.cursor with hcursor | hcursor
  · rw [hcursor]
  · rw [hcursor]
    dsimp only
    rw [Bytes.overwrite_end]

theorem cursor_write (h : Attached d j content) (bytes : Bytes) :
    (j.write d bytes).2.cursor = .atEnd ∨
      (j.write d bytes).2.cursor = .fixed (content ++ bytes).length := by
  unfold Journal.write
  rcases h.cursor with hcursor | hcursor
  · rw [hcursor]
    exact Or.inl hcursor
  · rw [hcursor, List.length_append]
    exact Or.inr rfl

end Attached

/-! ## Records -/

@[simp]
theorem path_write (j : Journal) (d : Disk) (bytes : Bytes) :
    (j.write d bytes).2.path = j.path := by
  unfold write
  cases j.cursor <;> rfl

@[simp]
theorem location_write (j : Journal) (d : Disk) (bytes : Bytes) :
    (j.write d bytes).2.location = j.location := by
  unfold write
  cases j.cursor <;> rfl

theorem Attached.write (h : Attached d j content) (bytes : Bytes) :
    Attached (j.write d bytes).1 (j.write d bytes).2 (content ++ bytes) := by
  rw [h.disk_write bytes]
  exact h.setContent (path_write j d bytes) (location_write j d bytes) (h.cursor_write bytes)

/-- How a record of a batch is answered: an empty batch writes nothing, and so cannot fail. -/
def answer (batch : List Edit) (fate : WriteFate) : Option DiskError :=
  if batch = [] then none else fate.failure?

theorem answer_of_complete (batch : List Edit) : answer batch .complete = none := by
  unfold answer
  split <;> rfl

def reaching (batch : List Edit) (fate : WriteFate) : Bytes :=
  fate.reaching (Frame.ofEdits batch)

theorem reaching_nil (fate : WriteFate) : reaching [] fate = [] := by
  cases fate with
  | complete => rfl
  | failed written => exact List.take_nil
  | refused => rfl

theorem failure_record (j : Journal) (d : Disk) (batch : List Edit) (fate : WriteFate) :
    (j.record d batch fate).failure = answer batch fate := by
  unfold record answer
  split
  · rfl
  · dsimp only
    cases fate.failure? <;> rfl

@[simp]
theorem path_record (j : Journal) (d : Disk) (batch : List Edit) (fate : WriteFate) :
    (j.record d batch fate).journal.path = j.path := by
  unfold record
  split
  · rfl
  · dsimp only
    split <;> exact path_write j d _

@[simp]
theorem location_record (j : Journal) (d : Disk) (batch : List Edit) (fate : WriteFate) :
    (j.record d batch fate).journal.location = j.location := by
  unfold record
  split
  · rfl
  · dsimp only
    split <;> exact location_write j d _

/-- A record adds the bytes that reach the file, whatever its answer. -/
theorem Attached.record (h : Attached d j content) (batch : List Edit) (fate : WriteFate) :
    Attached (j.record d batch fate).disk (j.record d batch fate).journal
      (content ++ reaching batch fate) := by
  have hwrite := h.write (reaching batch fate)
  unfold Journal.record
  split
  · next hempty =>
      rw [hempty, reaching_nil, List.append_nil]
      exact h
  · dsimp only
    split
    · exact hwrite
    · exact ⟨hwrite.text, hwrite.ending, hwrite.way, hwrite.located, hwrite.file, hwrite.cursor⟩

/-! ## Replacements -/

theorem prepare_eq_ok {d' : Disk} {bytes : Bytes} {fate : WriteFate} {t : Location}
    (h : j.prepare d bytes fate = (d', .ok t)) :
    ∃ made, d.openFile j.temporary = (made, .ok t) ∧ d' = made.setContent t bytes := by
  unfold prepare at h
  split at h
  · cases h
  · next hfate =>
      cases hopen : d.openFile j.temporary with
      | mk made opened =>
          rw [hopen] at h
          cases opened with
          | error e => cases h
          | ok t' =>
              cases fate with
              | complete =>
                  cases h
                  exact ⟨made, rfl, rfl⟩
              | failed written => cases h
              | refused => exact absurd rfl hfate

/-- A preparation that fails leaves the disk as it was, but for the temporary file. -/
theorem prepare_eq_error {d' : Disk} {bytes : Bytes} {fate : WriteFate} {e : DiskError}
    (h : j.prepare d bytes fate = (d', .error e)) :
    d' = d ∨ ∃ made t, d.openFile j.temporary = (made, .ok t) ∧
      ∃ partly, d' = made.setContent t partly := by
  unfold prepare at h
  split at h
  · cases h
    exact Or.inl rfl
  · cases hopen : d.openFile j.temporary with
    | mk made opened =>
        rw [hopen] at h
        cases opened with
        | error e =>
            cases h
            exact Or.inl (Disk.openFile_eq_error hopen)
        | ok t =>
            dsimp only at h
            split at h
            · cases h
              exact Or.inr ⟨made, t, rfl, _, rfl⟩
            · cases h

theorem node?_temporary {made : Disk} {t : Location} (bytes : Bytes)
    (hopen : d.openFile j.temporary = (made, .ok t)) (l : Location) :
    (made.setContent t bytes).node? l = if l = t then some (.file bytes) else d.node? l := by
  obtain ⟨-, -, hfree, hmade⟩ := Disk.openFile_eq_ok hopen
  rcases hmade with rfl | rfl
  · exact Disk.node?_setContent hfree bytes l
  · rw [Disk.node?_setContent, Disk.node?_setContent hfree]
    · split <;> rfl
    · rw [Disk.node?_setContent hfree, if_pos rfl]
      simp

theorem extends_temporary {made : Disk} {t : Location} (bytes : Bytes)
    (hopen : d.openFile j.temporary = (made, .ok t)) : d.Extends (made.setContent t bytes) := by
  obtain ⟨-, -, hfree, -⟩ := Disk.openFile_eq_ok hopen
  intro l hl
  rw [node?_temporary bytes hopen, if_neg]
  · exact hl
  · rintro rfl
    exact hfree hl

namespace Attached

theorem temporary_ne (h : Attached d j content) {made : Disk} {t : Location}
    (hopen : d.openFile j.temporary = (made, .ok t)) : t ≠ j.location := by
  obtain ⟨s, hs⟩ := h.text
  have hlocated := h.located
  have hending := h.ending
  unfold temporary at hopen
  rw [hs] at hlocated hending hopen
  exact Disk.ne_of_openFile_temporary hlocated hending hopen

theorem prepare (h : Attached d j content) {made : Disk} {t : Location} (bytes : Bytes)
    (hopen : d.openFile j.temporary = (made, .ok t)) :
    Attached (made.setContent t bytes) j content := by
  apply h.keep (extends_temporary bytes hopen)
  rw [node?_temporary bytes hopen, if_neg (h.temporary_ne hopen).symm]
  exact h.file

end Attached

theorem failure_replace_eq_none_iff (j : Journal) (d : Disk) (edits : List Edit)
    (fate : WriteFate) : (j.replace d edits fate).failure = none ↔
      ∃ d' t, j.prepare d (Frame.ofEdits edits) fate = (d', .ok t) := by
  unfold replace
  dsimp only
  cases hprepare : j.prepare d (Frame.ofEdits edits) fate with
  | mk d' prepared =>
      cases prepared with
      | error e => simp
      | ok t => simp

@[simp]
theorem path_replace (j : Journal) (d : Disk) (edits : List Edit) (fate : WriteFate) :
    (j.replace d edits fate).journal.path = j.path := by
  unfold replace
  dsimp only
  split <;> rfl

/-- A replacement that succeeds puts the frames of the edits into the journal's place. -/
theorem Attached.replace (h : Attached d j content) {edits : List Edit} {fate : WriteFate}
    (hdone : (j.replace d edits fate).failure = none) :
    Attached (j.replace d edits fate).disk (j.replace d edits fate).journal
      (Frame.ofEdits edits) := by
  obtain ⟨d', t, hprepare⟩ := (failure_replace_eq_none_iff j d edits fate).mp hdone
  obtain ⟨made, hopen, rfl⟩ := prepare_eq_ok hprepare
  have hprepared := h.prepare (Frame.ofEdits edits) hopen
  have htemporary := node?_temporary (Frame.ofEdits edits) hopen t
  rw [if_pos rfl] at htemporary
  have hfree := Disk.not_directory_of_file htemporary
  have hextends := Disk.extends_rename hfree hprepared.not_directory
  unfold Journal.replace
  dsimp only
  rw [hprepare]
  constructor
  · exact h.text
  · exact h.ending
  · exact hprepared.way.extends hextends
  · exact Disk.locate_of_extends hextends hprepared.located
  · dsimp only
    rw [Disk.node?_rename hfree hprepared.not_directory, if_pos rfl,
      Disk.content_of_file htemporary]
  · exact Or.inr rfl

theorem Attached.replace_failed (h : Attached d j content) {edits : List Edit}
    {fate : WriteFate} (hfailed : (j.replace d edits fate).failure ≠ none) :
    (j.replace d edits fate).journal = j ∧
      Attached (j.replace d edits fate).disk j content := by
  unfold Journal.replace at hfailed ⊢
  dsimp only at hfailed ⊢
  cases hprepare : j.prepare d (Frame.ofEdits edits) fate with
  | mk d' prepared =>
      rw [hprepare] at hfailed
      cases prepared with
      | ok t => exact absurd rfl hfailed
      | error e =>
          refine ⟨rfl, ?_⟩
          rcases prepare_eq_error hprepare with rfl | ⟨made, t, hopen, partly, rfl⟩
          · exact h
          · exact h.prepare partly hopen

/-! ## Opening -/

theorem read_of_file {p : Path} {bytes : Bytes} (h : d.fileBytes p = .ok bytes) :
    read d p = .ok (.ofBytes bytes) := by
  unfold read
  rw [h]

def cut (d : Disk) (j : Journal) (content : Bytes) : Disk :=
  if (Recovery.ofBytes content).damage.isSome then
    d.setContent j.location (content.take (Recovery.ofBytes content).validLength)
  else d

namespace Attached

theorem openAt (h : Attached d j content) :
    Journal.openAt d j.path = (cut d j content,
      .ok (⟨j.path, j.location, .atEnd, (Recovery.ofBytes content).edits.length⟩,
        Recovery.ofBytes content)) := by
  have hread := read_of_file (Disk.fileBytes_of_file h.located h.ending h.file)
  have hopen := Disk.openFile_of_file h.located h.ending h.file
  have hway : d.makeWay j.path = (d, none) := h.way
  unfold Journal.openAt
  rw [hway]
  dsimp only
  rw [hread]
  dsimp only
  rw [hopen]
  dsimp only
  rw [Disk.content_of_file h.file]
  rfl

theorem cut (h : Attached d j content) (records : Nat) :
    Attached (Journal.cut d j content) ⟨j.path, j.location, .atEnd, records⟩
      (content.take (Recovery.ofBytes content).validLength) := by
  unfold Journal.cut
  split
  · exact h.setContent rfl rfl (Or.inl rfl)
  · next hsound =>
      have hnone : (Recovery.ofBytes content).damage = none := by simpa using hsound
      have hlength : (Recovery.ofBytes content).validLength = content.length :=
        (Recovery.intact_of_undamaged hnone).validLength_eq
      rw [hlength, List.take_length]
      exact ⟨h.text, h.ending, h.way, h.located, h.file, Or.inl rfl⟩

end Attached

section Free

variable {made : Disk} {p : Path} {l : Location}

theorem openAt_of_free (hway : made.HasWay p) (hlocated : made.locate p = .ok l)
    (hending : p.ending = .name) (hnode : made.node? l = none) :
    openAt made p = (made.setContent l [], .ok (⟨p, l, .atEnd, 0⟩, Recovery.ofBytes [])) := by
  have hread : read made p = .ok .empty := by
    unfold read
    rw [Disk.fileBytes_of_free hlocated hnode]
  have hopen := Disk.openFile_of_free hlocated hending hnode
  have hagain : made.makeWay p = (made, none) := hway
  unfold openAt
  rw [hagain]
  dsimp only
  rw [hread]
  dsimp only
  rw [hopen, Recovery.ofBytes_nil]
  rfl

theorem attached_of_free (htext : ∃ s, p = Path.ofText s) (hway : made.HasWay p)
    (hlocated : made.locate p = .ok l) (hending : p.ending = .name)
    (hnode : made.node? l = none) :
    Attached (made.setContent l []) ⟨p, l, .atEnd, 0⟩ [] := by
  have hfree : made.node? l ≠ some .directory := by
    rw [hnode]
    simp
  have hextends := Disk.extends_setContent hfree []
  refine ⟨htext, hending, hway.extends hextends,
    Disk.locate_of_extends hextends hlocated, ?_, Or.inl rfl⟩
  rw [Disk.node?_setContent hfree, if_pos rfl]

end Free

/-- Where a disk admits a journal, opening attaches one to the edits that the file holds. -/
theorem openAt_of_admits {p : Path} {held : Option Bytes} (h : d.Admits p held) :
    ∃ d' j content, openAt d p = (d', .ok (j, Recovery.ofBytes (held.getD []))) ∧
      j.path = p ∧ Attached d' j content ∧
      Intact content (Recovery.ofBytes (held.getD [])).edits := by
  cases hmake : d.makeWay p with
  | mk made failure =>
      have hway := h.way
      obtain ⟨l, hlocated, hnode⟩ := h.place
      rw [hmake] at hway hlocated hnode
      dsimp only at hway hlocated hnode
      subst hway
      have hmade := (Disk.hasWay_of_makeWay hmake).2
      have hsame : openAt d p = openAt made p := by
        have hagain : made.makeWay p = (made, none) := hmade
        unfold openAt
        rw [hmake, hagain]
      rw [hsame]
      cases held with
      | some bytes =>
          have hattached : Attached made ⟨p, l, .atEnd, 0⟩ bytes :=
            ⟨h.text, h.ending, hmade, hlocated, hnode, Or.inl rfl⟩
          exact ⟨_, _, _, hattached.openAt, rfl, hattached.cut _, Recovery.intact_take bytes⟩
      | none =>
          refine ⟨_, _, _, openAt_of_free hmade hlocated h.ending hnode, rfl,
            attached_of_free h.text hmade hlocated h.ending hnode, ?_⟩
          rw [Option.getD_none, Recovery.ofBytes_nil]
          exact Intact.nil

/-- Wherever a journal can be opened, the disk admits one. -/
theorem exists_admits_of_openAt {d' : Disk} {s : String} {opened : Journal × Recovery}
    (h : openAt d (Path.ofText s) = (d', .ok opened)) :
    ∃ held, d.Admits (Path.ofText s) held := by
  unfold openAt at h
  cases hmake : d.makeWay (Path.ofText s) with
  | mk made failure =>
      rw [hmake] at h
      cases failure with
      | some e => cases h
      | none =>
          dsimp only at h
          split at h
          · cases h
          · split at h
            · cases h
            · next made' l hopen =>
                obtain ⟨hlocated, hending, hfree, -⟩ := Disk.openFile_eq_ok hopen
                have hway : (d.makeWay (Path.ofText s)).2 = none := by rw [hmake]
                have hfirst : (d.makeWay (Path.ofText s)).1 = made := by rw [hmake]
                cases hnode : made.node? l with
                | none =>
                    refine ⟨none, ⟨s, rfl⟩, hending, hway, l, ?_, ?_⟩
                    · rw [hfirst, hlocated]
                    · rw [hfirst, hnode]
                      rfl
                | some n =>
                    cases n with
                    | directory => exact absurd hnode hfree
                    | file bytes =>
                        refine ⟨some bytes, ⟨s, rfl⟩, hending, hway, l, ?_, ?_⟩
                        · rw [hfirst, hlocated]
                        · rw [hfirst, hnode]
                          rfl

end Journal

end NurseryRota
