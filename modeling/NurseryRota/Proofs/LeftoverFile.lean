import NurseryRota.Proofs.StoreRuns

/-!
# A file left over

Two disks that differ at most in the temporary file of a journal cannot be told apart by what is
done with the journal: a walk leads through no file, the journal is another file, and a
replacement makes the temporary file anew before it reads it.  Runs on the two disks therefore
give the same answers and the same stores.
-/

namespace NurseryRota

namespace Disk

/-- The disks differ at most at one place, where neither has a directory. -/
structure SameBut (t : Location) (d d' : Disk) : Prop where
  same : ∀ l, l ≠ t → d'.node? l = d.node? l
  left : d.node? t ≠ some .directory
  right : d'.node? t ≠ some .directory

namespace SameBut

variable {t l : Location} {d d' : Disk}

theorem extends_right (h : SameBut t d d') : d.Extends d' := by
  intro m hm
  rw [h.same]
  · exact hm
  · rintro rfl
    exact h.left hm

theorem not_directory_right (h : SameBut t d d') (hl : d.node? l ≠ some .directory) :
    d'.node? l ≠ some .directory := by
  by_cases heq : l = t
  · rw [heq]
    exact h.right
  · rw [h.same l heq]
    exact hl

theorem setContent (h : SameBut t d d') (hl : d.node? l ≠ some .directory) (bytes : Bytes) :
    SameBut t (d.setContent l bytes) (d'.setContent l bytes) := by
  have hr := h.not_directory_right hl
  constructor
  · intro m hm
    rw [node?_setContent hr, node?_setContent hl, h.same m hm]
  · rw [node?_setContent hl]
    split
    · simp
    · exact h.left
  · rw [node?_setContent hr]
    split
    · simp
    · exact h.right

theorem of_setContent (hl : d.node? l ≠ some .directory) (bytes : Bytes) :
    SameBut l d (d.setContent l bytes) := by
  constructor
  · intro m hm
    rw [node?_setContent hl, if_neg hm]
  · exact hl
  · rw [node?_setContent hl, if_pos rfl]
    simp

/-- Renaming the file in which they may differ makes disks alike, if it holds the same. -/
theorem rename (h : SameBut t d d') (hl : d.node? l ≠ some .directory)
    (hcontent : d'.content t = d.content t) : SameBut t (d.rename t l) (d'.rename t l) := by
  have hr := h.not_directory_right hl
  constructor
  · intro m hm
    rw [node?_rename h.right hr, node?_rename h.left hl, hcontent, h.same m hm]
  · rw [node?_rename h.left hl, if_pos rfl]
    split <;> simp
  · rw [node?_rename h.right hr, if_pos rfl]
    split <;> simp

end SameBut

end Disk

namespace Journal

variable {t : Location} {d d' : Disk} {j : Journal} {content : Bytes}

/-- The journal is attached on both disks, which differ at most in its temporary file. -/
structure Twin (t : Location) (d d' : Disk) (j : Journal) (content : Bytes) : Prop where
  attached : j.Attached d content
  same : d.SameBut t d'
  temporary : d.locate j.temporary = .ok t
  ending : j.temporary.ending = .name
  ne : j.location ≠ t

namespace Twin

theorem ofOpenFile {made : Disk} (hattached : j.Attached d content)
    (hopen : d.openFile j.temporary = (made, .ok t)) (hsame : d.SameBut t d') :
    Twin t d d' j content := by
  obtain ⟨hlocated, hending, -, -⟩ := Disk.openFile_eq_ok hopen
  exact ⟨hattached, hsame, hlocated, hending, (hattached.temporary_ne hopen).symm⟩

theorem attached_right (h : Twin t d d' j content) : j.Attached d' content := by
  apply h.attached.keep h.same.extends_right
  rw [h.same.same _ h.ne]
  exact h.attached.file

theorem moved {m m' : Disk} {j' : Journal} {bytes : Bytes} (h : Twin t d d' j content)
    (hextends : d.Extends m) (hattached : j'.Attached m bytes) (hsame : m.SameBut t m')
    (hpath : j'.path = j.path) (hlocation : j'.location = j.location) :
    Twin t m m' j' bytes := by
  have htemporary : j'.temporary = j.temporary := by
    unfold Journal.temporary
    rw [hpath]
  refine ⟨hattached, hsame, ?_, ?_, ?_⟩
  · rw [htemporary]
    exact Disk.locate_of_extends hextends h.temporary
  · rw [htemporary]
    exact h.ending
  · rw [hlocation]
    exact h.ne

/-! ## Records -/

theorem journal_write (j : Journal) (d d' : Disk) (bytes : Bytes) :
    (j.write d' bytes).2 = (j.write d bytes).2 := by
  unfold Journal.write
  cases j.cursor <;> rfl

theorem write (h : Twin t d d' j content) (bytes : Bytes) :
    Twin t (j.write d bytes).1 (j.write d' bytes).1 (j.write d bytes).2 (content ++ bytes) := by
  have hattached := h.attached.write bytes
  have hpath := path_write j d bytes
  have hlocation := location_write j d bytes
  rw [h.attached.disk_write bytes] at hattached ⊢
  rw [h.attached_right.disk_write bytes]
  exact h.moved (Disk.extends_setContent h.attached.not_directory _) hattached
    (h.same.setContent h.attached.not_directory _) hpath hlocation

theorem record (h : Twin t d d' j content) (batch : List Edit) (fate : WriteFate) :
    (j.record d' batch fate).journal = (j.record d batch fate).journal ∧
      Twin t (j.record d batch fate).disk (j.record d' batch fate).disk
        (j.record d batch fate).journal (content ++ reaching batch fate) := by
  have hwrite := h.write (reaching batch fate)
  have hjournal := journal_write j d d' (reaching batch fate)
  have hattached := h.attached.record batch fate
  have hpath := path_record j d batch fate
  have hlocation := location_record j d batch fate
  unfold reaching at hwrite hjournal
  unfold Journal.record at hattached hpath hlocation ⊢
  split at hattached
  · next hempty =>
      simp only [if_pos hempty, true_and]
      rw [hempty, reaching_nil, List.append_nil]
      exact h
  · next hne =>
      simp only [if_neg hne] at hpath hlocation ⊢
      rw [hjournal]
      cases hfate : fate.failure? with
      | some e =>
          rw [hfate] at hattached
          exact ⟨rfl, hwrite⟩
      | none =>
          rw [hfate] at hattached
          exact ⟨rfl, hattached, hwrite.same, hwrite.temporary, hwrite.ending, hwrite.ne⟩

/-! ## Replacements -/

theorem openFile_temporary (h : Twin t d d' j content) :
    ∃ made made', d.openFile j.temporary = (made, .ok t) ∧
      d'.openFile j.temporary = (made', .ok t) := by
  have hright := Disk.locate_of_extends h.same.extends_right h.temporary
  exact ⟨_, _, Disk.openFile_of_place h.temporary h.ending h.same.left,
    Disk.openFile_of_place hright h.ending h.same.right⟩

theorem same_temporary (h : Twin t d d' j content) {made made' : Disk} (bytes : Bytes)
    (hopen : d.openFile j.temporary = (made, .ok t))
    (hopen' : d'.openFile j.temporary = (made', .ok t)) :
    (made.setContent t bytes).SameBut t (made'.setContent t bytes) := by
  constructor
  · intro l hl
    rw [node?_temporary bytes hopen', node?_temporary bytes hopen, if_neg hl, if_neg hl,
      h.same.same l hl]
  · rw [node?_temporary bytes hopen, if_pos rfl]
    simp
  · rw [node?_temporary bytes hopen', if_pos rfl]
    simp

theorem written (h : Twin t d d' j content) {made made' : Disk} (bytes : Bytes)
    (hopen : d.openFile j.temporary = (made, .ok t))
    (hopen' : d'.openFile j.temporary = (made', .ok t)) :
    Twin t (made.setContent t bytes) (made'.setContent t bytes) j content :=
  h.moved (extends_temporary bytes hopen) (h.attached.prepare bytes hopen)
    (h.same_temporary bytes hopen hopen') rfl rfl

theorem prepare (h : Twin t d d' j content) (bytes : Bytes) (fate : WriteFate) :
    (∃ m m', j.prepare d bytes fate = (m, .error .noSpace) ∧
      j.prepare d' bytes fate = (m', .error .noSpace) ∧ Twin t m m' j content) ∨
    ∃ m m', j.prepare d bytes fate = (m, .ok t) ∧ j.prepare d' bytes fate = (m', .ok t) ∧
      Twin t m m' j content ∧ m.node? t = some (.file bytes) ∧
      m'.node? t = some (.file bytes) := by
  obtain ⟨made, made', hopen, hopen'⟩ := h.openFile_temporary
  cases fate with
  | refused => exact Or.inl ⟨d, d', rfl, rfl, h⟩
  | failed written =>
      left
      unfold Journal.prepare
      rw [hopen, hopen']
      exact ⟨_, _, rfl, rfl, h.written _ hopen hopen'⟩
  | complete =>
      right
      have hleft := node?_temporary bytes hopen t
      have hright := node?_temporary bytes hopen' t
      rw [if_pos rfl] at hleft hright
      unfold Journal.prepare
      rw [hopen, hopen']
      exact ⟨_, _, rfl, rfl, h.written bytes hopen hopen', hleft, hright⟩

theorem replace (h : Twin t d d' j content) (edits : List Edit) (fate : WriteFate) :
    (j.replace d' edits fate).journal = (j.replace d edits fate).journal ∧
      ∃ bytes, Twin t (j.replace d edits fate).disk (j.replace d' edits fate).disk
        (j.replace d edits fate).journal bytes := by
  rcases h.prepare (Frame.ofEdits edits) fate with
    ⟨m, m', hprepare, hprepare', htwin⟩ | ⟨m, m', hprepare, hprepare', htwin, hm, hm'⟩
  · unfold Journal.replace
    dsimp only
    rw [hprepare, hprepare']
    exact ⟨rfl, content, htwin⟩
  · have hdone := (failure_replace_eq_none_iff j d edits fate).mpr ⟨m, t, hprepare⟩
    have hattached := h.attached.replace hdone
    have hextends := Disk.extends_rename htwin.same.left htwin.attached.not_directory
    have hcontent : m'.content t = m.content t := by
      rw [Disk.content_of_file hm, Disk.content_of_file hm']
    have hsame := htwin.same.rename htwin.attached.not_directory hcontent
    unfold Journal.replace at hattached ⊢
    dsimp only at hattached ⊢
    rw [hprepare] at hattached ⊢
    rw [hprepare']
    exact ⟨rfl, _, htwin.moved hextends hattached hsame rfl rfl⟩

/-! ## Opening -/

theorem openAt (h : Twin t d d' j content) :
    ∃ m m' j' recovery, Journal.openAt d j.path = (m, .ok (j', recovery)) ∧
      Journal.openAt d' j.path = (m', .ok (j', recovery)) ∧ j'.path = j.path ∧
      ∃ bytes, Twin t m m' j' bytes := by
  have hcut := h.attached.cut (Recovery.ofBytes content).edits.length
  refine ⟨_, _, _, _, h.attached.openAt, h.attached_right.openAt, rfl,
    content.take (Recovery.ofBytes content).validLength, ?_⟩
  unfold Journal.cut at hcut ⊢
  split
  · next hdamaged =>
      rw [if_pos hdamaged] at hcut
      exact h.moved (Disk.extends_setContent h.attached.not_directory _) hcut
        (h.same.setContent h.attached.not_directory _) rfl rfl
  · next hsound =>
      rw [if_neg hsound] at hcut
      exact h.moved (Disk.Extends.refl d) hcut h.same rfl rfl

end Twin

end Journal

namespace Session

/-- Sessions with one store, whose disks differ at most in the temporary file of its journal. -/
structure Twins (t : Location) (p : Path) (s s' : Session) : Prop where
  store : s'.store = s.store
  journal : ∃ j content, s.store.journal = some j ∧ j.path = p ∧
    Journal.Twin t s.disk s'.disk j content

variable {t : Location} {p : Path} {s s' : Session}

theorem Twins.same (h : Twins t p s s') : s.disk.SameBut t s'.disk := by
  obtain ⟨j, content, -, -, htwin⟩ := h.journal
  exact htwin.same

theorem twins_reopen {j : Journal} {content : Bytes}
    (h : Journal.Twin t s.disk s'.disk j content) (threshold : Nat) :
    (s'.step j.path (.reopen threshold)).2 = (s.step j.path (.reopen threshold)).2 ∧
      Twins t j.path (s.step j.path (.reopen threshold)).1
        (s'.step j.path (.reopen threshold)).1 := by
  obtain ⟨m, m', j', recovery, hopen, hopen', hpath, bytes, htwin⟩ := h.openAt
  unfold step Store.ofJournal
  rw [hopen, hopen']
  exact ⟨rfl, rfl, j', bytes, rfl, hpath, htwin⟩

theorem twins_compact {d d' : Disk} {store : Store} {j : Journal} {content : Bytes}
    (hjournal : store.journal = some j) (h : Journal.Twin t d d' j content)
    (fate : WriteFate) :
    Twins t j.path ⟨(store.compact d fate).1, (store.compact d fate).2⟩
      ⟨(store.compact d' fate).1, (store.compact d' fate).2⟩ := by
  obtain ⟨hsame, bytes, htwin⟩ := h.replace store.rota.history fate
  unfold Store.compact
  rw [hjournal]
  dsimp only
  split
  · rw [hsame]
    exact ⟨rfl, _, bytes, rfl, Journal.path_replace j d _ fate, htwin⟩
  · exact ⟨rfl, j, content, hjournal, rfl, h⟩

theorem twins_record {j : Journal} {content : Bytes} (hstore : s'.store = s.store)
    (hjournal : s.store.journal = some j) (h : Journal.Twin t s.disk s'.disk j content)
    (batch : List Edit) (fate : RecordFate) :
    (s'.step j.path (.record batch fate)).2 = (s.step j.path (.record batch fate)).2 ∧
      Twins t j.path (s.step j.path (.record batch fate)).1
        (s'.step j.path (.record batch fate)).1 := by
  obtain ⟨hsame, htwin⟩ := h.record batch fate.append
  have hpath := j.path_record s.disk batch fate.append
  have hfailure := j.failure_record s.disk batch fate.append
  have hfailure' := j.failure_record s'.disk batch fate.append
  unfold step Store.record
  rw [hstore, hjournal]
  dsimp only
  rw [hfailure, hfailure', hsame]
  cases Journal.answer batch fate.append with
  | some e => exact ⟨rfl, rfl, _, _, rfl, hpath, htwin⟩
  | none =>
      have hwritten : (Store.withRota
          { s.store with journal := some (j.record s.disk batch fate.append).journal }
          (s.store.rota.applyAll batch)).journal =
            some (j.record s.disk batch fate.append).journal := rfl
      have hcompact := twins_compact hwritten htwin fate.compaction
      rw [hpath] at hcompact
      exact ⟨rfl, hcompact⟩

theorem Twins.step (h : Twins t p s s') (c : Store.Call) :
    (s'.step p c).2 = (s.step p c).2 ∧ Twins t p (s.step p c).1 (s'.step p c).1 := by
  obtain ⟨j, content, hjournal, rfl, htwin⟩ := h.journal
  cases c with
  | reopen threshold => exact twins_reopen htwin threshold
  | record batch fate => exact twins_record h.store hjournal htwin batch fate

theorem Twins.run (h : Twins t p s s') (calls : List Store.Call) :
    (s'.run p calls).2 = (s.run p calls).2 ∧ Twins t p (s.run p calls).1 (s'.run p calls).1 := by
  induction calls generalizing s s' with
  | nil => exact ⟨rfl, h⟩
  | cons c calls ih =>
      obtain ⟨hanswer, hstep⟩ := h.step c
      obtain ⟨hanswers, hrun⟩ := ih hstep
      unfold Session.run
      dsimp only
      rw [hanswer, hanswers]
      exact ⟨rfl, hrun⟩

end Session

end NurseryRota
