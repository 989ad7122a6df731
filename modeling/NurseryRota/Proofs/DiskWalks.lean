import NurseryRota.Disk

/-!
# Walks through a disk

A walk reads the directories on its way and nothing else, so it leads to the same place on every
disk that has these directories.  Writing a file, or removing one, takes no directory away, and
neither does making the missing directories of a walk; a way once made therefore stays made.
-/

namespace NurseryRota.Disk

variable {d d' : Disk} {l : Location}

theorem isFixed_eq_false (h : d.node? l ≠ some .directory) : isFixed l = false := by
  cases hfixed : isFixed l with
  | false => rfl
  | true =>
      exfalso
      apply h
      unfold node?
      rw [if_pos hfixed]

theorem node?_setContent (h : d.node? l ≠ some .directory) (content : Bytes) (m : Location) :
    (d.setContent l content).node? m = if m = l then some (.file content) else d.node? m :=
  node?_put d l m _ (isFixed_eq_false h)

theorem content_of_file {bytes : Bytes} (h : d.node? l = some (.file bytes)) :
    d.content l = bytes := by
  unfold content
  rw [h]

theorem not_directory_of_file {bytes : Bytes} (h : d.node? l = some (.file bytes)) :
    d.node? l ≠ some .directory := by
  rw [h]
  simp

theorem node?_rename {source target : Location} (hsource : d.node? source ≠ some .directory)
    (htarget : d.node? target ≠ some .directory) (m : Location) :
    (d.rename source target).node? m =
      if m = target then some (.file (d.content source))
      else if m = source then none else d.node? m := by
  unfold rename
  rw [node?_put _ _ _ _ (isFixed_eq_false htarget), node?_drop _ _ _ (isFixed_eq_false hsource)]

/-! ## Directories that stay -/

/-- Every directory of the first disk is one of the second. -/
def Extends (d d' : Disk) : Prop :=
  ∀ l, d.node? l = some .directory → d'.node? l = some .directory

theorem Extends.refl (d : Disk) : d.Extends d := fun _ h => h

theorem Extends.trans {d'' : Disk} (h : d.Extends d') (h' : d'.Extends d'') : d.Extends d'' :=
  fun l hl => h' l (h l hl)

theorem extends_setContent (h : d.node? l ≠ some .directory) (content : Bytes) :
    d.Extends (d.setContent l content) := by
  intro m hm
  rw [node?_setContent h, if_neg]
  · exact hm
  · rintro rfl
    exact h hm

theorem extends_put_directory (h : d.node? l ≠ some .directory) :
    d.Extends (d.put l .directory) := by
  intro m hm
  rw [node?_put _ _ _ _ (isFixed_eq_false h)]
  split
  · rfl
  · exact hm

theorem extends_rename {source target : Location} (hsource : d.node? source ≠ some .directory)
    (htarget : d.node? target ≠ some .directory) : d.Extends (d.rename source target) := by
  intro m hm
  rw [node?_rename hsource htarget, if_neg, if_neg]
  · exact hm
  · rintro rfl
    exact hsource hm
  · rintro rfl
    exact htarget hm

/-! ## Walks -/

theorem walk_of_extends (h : d.Extends d') {start : Location} {steps : List Step}
    (hwalk : d.walk start steps = .ok l) : d'.walk start steps = .ok l := by
  induction steps generalizing start with
  | nil => exact hwalk
  | cons s rest ih =>
      cases s with
      | up => exact ih hwalk
      | down name =>
          unfold walk at hwalk ⊢
          split at hwalk
          · cases hwalk
          · next hsize =>
              rw [if_neg hsize]
              split at hwalk
              · next hlast =>
                  rw [if_pos hlast]
                  exact hwalk
              · next hlast =>
                  rw [if_neg hlast]
                  cases hnode : d.node? (start.push name) with
                  | none =>
                      rw [hnode] at hwalk
                      cases hwalk
                  | some n =>
                      rw [hnode] at hwalk
                      cases n with
                      | file content => cases hwalk
                      | directory =>
                          rw [h _ hnode]
                          exact ih hwalk

theorem locate_eq_ok_iff {p : Path} :
    d.locate p = .ok l ↔ refusal? p = none ∧ d.walk (base p) p.steps = .ok l := by
  unfold locate
  cases refusal? p with
  | none => simp
  | some e => simp

theorem locate_of_extends (h : d.Extends d') {p : Path} (hlocate : d.locate p = .ok l) :
    d'.locate p = .ok l := by
  obtain ⟨hrefusal, hwalk⟩ := locate_eq_ok_iff.mp hlocate
  exact locate_eq_ok_iff.mpr ⟨hrefusal, walk_of_extends h hwalk⟩

theorem exists_push_of_walk {start : Location} {steps : List Step} {name : String}
    (hlast : steps.getLast? = some (.down name)) (hwalk : d.walk start steps = .ok l) :
    ∃ m : Location, l = m.push name := by
  induction steps generalizing start with
  | nil => cases hlast
  | cons s rest ih =>
      cases rest with
      | nil =>
          cases hlast
          unfold walk at hwalk
          split at hwalk
          · cases hwalk
          · rw [if_pos rfl] at hwalk
            cases hwalk
            exact ⟨start, rfl⟩
      | cons t rest =>
          rw [List.getLast?_cons_cons] at hlast
          cases s with
          | up => exact ih hlast hwalk
          | down other =>
              unfold walk at hwalk
              split at hwalk
              · cases hwalk
              · rw [if_neg (List.cons_ne_nil t rest)] at hwalk
                split at hwalk
                · exact ih hlast hwalk
                · cases hwalk
                · cases hwalk

/-! ## Ways -/

def HasDirectories (d : Disk) : Location → List Step → Prop
  | _, [] => True
  | start, .up :: rest => HasDirectories d (above start) rest
  | start, .down name :: rest =>
    ¬ maxNameSize < name.utf8ByteSize ∧ d.node? (start.push name) = some .directory ∧
      HasDirectories d (start.push name) rest

theorem HasDirectories.extends (h : d.Extends d') {start : Location} {steps : List Step}
    (hsteps : d.HasDirectories start steps) : d'.HasDirectories start steps := by
  induction steps generalizing start with
  | nil => trivial
  | cons s rest ih =>
      cases s with
      | up => exact ih hsteps
      | down name =>
          obtain ⟨hsize, hnode, hrest⟩ := hsteps
          exact ⟨hsize, h _ hnode, ih hrest⟩

theorem makeAlong_of_hasDirectories {start : Location} {steps : List Step} (made : Bool)
    (hsteps : d.HasDirectories start steps) : d.makeAlong start made steps = (d, none) := by
  induction steps generalizing start with
  | nil => rfl
  | cons s rest ih =>
      cases s with
      | up => exact ih hsteps
      | down name =>
          obtain ⟨hsize, hnode, hrest⟩ := hsteps
          unfold makeAlong
          rw [if_neg hsize]
          dsimp only
          rw [hnode]
          exact ih hrest

theorem hasDirectories_of_makeAlong {start : Location} {steps : List Step} {made : Bool}
    (h : d.makeAlong start made steps = (d', none)) :
    d.Extends d' ∧ d'.HasDirectories start steps := by
  induction steps generalizing d start made with
  | nil =>
      cases h
      exact ⟨Extends.refl _, trivial⟩
  | cons s rest ih =>
      cases s with
      | up => exact ih h
      | down name =>
          unfold makeAlong at h
          split at h
          · cases h
          · next hsize =>
              dsimp only at h
              cases hnode : d.node? (start.push name) with
              | none =>
                  rw [hnode] at h
                  have hfree : d.node? (start.push name) ≠ some .directory := by simp [hnode]
                  have hmade : (d.put (start.push name) .directory).node? (start.push name) =
                      some .directory := by
                    rw [node?_put _ _ _ _ (isFixed_eq_false hfree), if_pos rfl]
                  obtain ⟨hextends, hrest⟩ := ih h
                  exact ⟨(extends_put_directory hfree).trans hextends, hsize,
                    hextends _ hmade, hrest⟩
              | some n =>
                  rw [hnode] at h
                  cases n with
                  | file content => cases h
                  | directory =>
                      obtain ⟨hextends, hrest⟩ := ih h
                      exact ⟨hextends, hsize, hextends _ hnode, hrest⟩

/-- The directories that a path leads through are there. -/
def HasWay (d : Disk) (p : Path) : Prop := d.makeWay p = (d, none)

theorem makeDirectories_eq_none_iff {p : Path} :
    d.makeDirectories p = (d', none) ↔
      p.text.isEmpty = true ∧ d' = d ∨
        p.text.isEmpty = false ∧ refusal? p = none ∧
          d.makeAlong (base p) false p.steps = (d', none) := by
  unfold makeDirectories
  cases hempty : p.text.isEmpty with
  | true => simp [eq_comm]
  | false =>
      cases hrefusal : refusal? p with
      | some e => simp
      | none => simp

theorem hasWay_of_makeWay {p : Path} (h : d.makeWay p = (d', none)) :
    d.Extends d' ∧ d'.HasWay p := by
  unfold HasWay makeWay at *
  cases hdirectory : p.directory? with
  | none =>
      rw [hdirectory] at h
      cases h
      exact ⟨Extends.refl d, rfl⟩
  | some directory =>
      rw [hdirectory] at h
      dsimp only at h ⊢
      rcases makeDirectories_eq_none_iff.mp h with ⟨hempty, rfl⟩ | ⟨hempty, hrefusal, hmake⟩
      · exact ⟨Extends.refl d', makeDirectories_eq_none_iff.mpr (Or.inl ⟨hempty, rfl⟩)⟩
      · obtain ⟨hextends, hsteps⟩ := hasDirectories_of_makeAlong hmake
        exact ⟨hextends, makeDirectories_eq_none_iff.mpr
          (Or.inr ⟨hempty, hrefusal, makeAlong_of_hasDirectories false hsteps⟩)⟩

theorem HasWay.extends {p : Path} (h : d.HasWay p) (hextends : d.Extends d') : d'.HasWay p := by
  unfold HasWay makeWay at *
  cases hdirectory : p.directory? with
  | none => rfl
  | some directory =>
      rw [hdirectory] at h
      dsimp only at h ⊢
      rcases makeDirectories_eq_none_iff.mp h with ⟨hempty, -⟩ | ⟨hempty, hrefusal, hmake⟩
      · exact makeDirectories_eq_none_iff.mpr (Or.inl ⟨hempty, rfl⟩)
      · have hsteps := (hasDirectories_of_makeAlong hmake).2
        exact makeDirectories_eq_none_iff.mpr (Or.inr ⟨hempty, hrefusal,
          makeAlong_of_hasDirectories false (hsteps.extends hextends)⟩)

/-! ## Files -/

theorem fileBytes_of_file {p : Path} {bytes : Bytes} (hlocate : d.locate p = .ok l)
    (hending : p.ending = .name) (hnode : d.node? l = some (.file bytes)) :
    d.fileBytes p = .ok bytes := by
  unfold fileBytes
  rw [hlocate]
  dsimp only
  rw [hnode]
  dsimp only
  rw [if_pos hending]

theorem fileBytes_of_free {p : Path} (hlocate : d.locate p = .ok l) (hnode : d.node? l = none) :
    d.fileBytes p = .error .notFound := by
  unfold fileBytes
  rw [hlocate]
  dsimp only
  rw [hnode]

theorem openFile_of_file {p : Path} {bytes : Bytes} (hlocate : d.locate p = .ok l)
    (hending : p.ending = .name) (hnode : d.node? l = some (.file bytes)) :
    d.openFile p = (d, .ok l) := by
  unfold openFile
  rw [hlocate]
  dsimp only
  rw [hnode]
  dsimp only
  rw [if_pos hending]

theorem openFile_of_free {p : Path} (hlocate : d.locate p = .ok l)
    (hending : p.ending = .name) (hnode : d.node? l = none) :
    d.openFile p = (d.setContent l [], .ok l) := by
  unfold openFile
  rw [hlocate]
  dsimp only
  rw [hnode, hending]
  rfl

theorem openFile_of_place {p : Path} (hlocate : d.locate p = .ok l) (hending : p.ending = .name)
    (hplace : d.node? l ≠ some .directory) : d.openFile p =
      (if d.node? l = none then d.setContent l [] else d, .ok l) := by
  cases hnode : d.node? l with
  | none => exact openFile_of_free hlocate hending hnode
  | some n =>
      cases n with
      | directory => exact absurd hnode hplace
      | file bytes => exact openFile_of_file hlocate hending hnode

/-- A file that is opened was there or is made empty. -/
theorem openFile_eq_ok {p : Path} (h : d.openFile p = (d', .ok l)) :
    d.locate p = .ok l ∧ p.ending = .name ∧ d.node? l ≠ some .directory ∧
      (d' = d ∨ d' = d.setContent l []) := by
  unfold openFile at h
  split at h
  · cases h
  · next m hlocate =>
      split at h
      · cases h
      · next content hnode =>
          split at h
          · next hending =>
              cases h
              exact ⟨hlocate, hending, not_directory_of_file hnode, Or.inl rfl⟩
          · cases h
      · next hnode =>
          split at h
          · next hending =>
              cases h
              exact ⟨hlocate, hending, by simp [hnode], Or.inr rfl⟩
          · cases h
          · cases h

theorem openFile_eq_error {p : Path} {e : DiskError} (h : d.openFile p = (d', .error e)) :
    d' = d := by
  unfold openFile at h
  repeat' split at h
  all_goals cases h
  all_goals rfl

end NurseryRota.Disk
