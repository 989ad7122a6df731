import NurseryRota.Command
import NurseryRota.Proofs.JsonDocuments

/-!
# Files of edits

The lines of a file stand between its newlines, and those that are not blank are its edits.  The
carriage return in front of a newline does not belong to the line, but as it is blank, it makes no
difference to what the line is read as.  The first line that is neither blank nor an edit is stray,
and nothing is read of a file that has one.
-/

namespace NurseryRota.Command

/-! ## Lines -/

/-- The line in front of a newline: a carriage return at its end belongs to the newline. -/
def chomp (line : List Char) : List Char :=
  if line.getLast? = some '\r' then line.dropLast else line

theorem eq_chomp (line : List Char) : chomp line = line ∨ chomp line ++ ['\r'] = line := by
  unfold chomp
  split
  · next hreturn =>
      obtain ⟨front, rfl⟩ := List.getLast?_eq_some_iff.mp hreturn
      exact .inr (by rw [List.dropLast_concat])
  · exact .inl rfl

theorem chomp_cons_cons (c e : Char) (line : List Char) :
    chomp (c :: e :: line) = c :: chomp (e :: line) := by
  unfold chomp
  rw [List.getLast?_cons_cons]
  split <;> rfl

theorem lines_append {line : List Char} (h : '\n' ∉ line) (rest : List Char) :
    lines (line ++ '\n' :: rest) = chomp line :: lines rest := by
  induction line with
  | nil => simp [lines, chomp]
  | cons c line ih =>
      have hother : c ≠ '\n' := (List.ne_of_not_mem_cons h).symm
      have hline : '\n' ∉ line := List.not_mem_of_not_mem_cons h
      rw [List.cons_append, lines, if_neg hother, ih hline]
      cases line with
      | nil => by_cases hreturn : c = '\r' <;> simp [chomp, hreturn]
      | cons e line =>
          have hinside : e ≠ '\n' := (List.ne_of_not_mem_cons hline).symm
          rw [chomp_cons_cons]
          simp [hinside]

theorem lines_of_not_mem {cs : List Char} (h : '\n' ∉ cs) :
    lines cs = if cs = [] then [] else [cs] := by
  induction cs with
  | nil => rfl
  | cons c cs ih =>
      have hother : c ≠ '\n' := (List.ne_of_not_mem_cons h).symm
      have hcs : '\n' ∉ cs := List.not_mem_of_not_mem_cons h
      have hlast : cs.head? ≠ some '\n' := fun hhead => hcs (List.mem_of_mem_head? hhead)
      rw [lines, if_neg hother, if_neg fun hboth => hlast hboth.2, ih hcs]
      cases cs <;> rfl

example : lines "a\r\n\r\n\rb\n".toList = ["a".toList, [], "\rb".toList] := by decide

/-- A text is a line without a newline, or such a line with a newline and a text behind it. -/
theorem lines_induction {motive : List Char → Prop} (last : ∀ line, '\n' ∉ line → motive line)
    (next : ∀ line rest, '\n' ∉ line → motive rest → motive (line ++ '\n' :: rest))
    (cs : List Char) : motive cs := by
  induction hn : cs.length using Nat.strongRecOn generalizing cs with
  | ind n ih =>
      by_cases hnewline : '\n' ∈ cs
      · obtain ⟨line, rest, rfl, hline⟩ := List.eq_append_cons_of_mem hnewline
        apply next line rest hline
        apply ih rest.length _ _ rfl
        rw [← hn, List.length_append, List.length_cons]
        omega
      · exact last cs hnewline

theorem isBlank_chomp (line : List Char) : Blank.isBlank (chomp line) = Blank.isBlank line := by
  obtain h | h := eq_chomp line
  · rw [h]
  · conv_rhs => rw [← h]
    simp [Blank.isBlank, Blank.contains, Blank.ranges]

theorem ofLine?_chomp (line : List Char) :
    Edit.ofLine? (String.ofList (chomp line)) = Edit.ofLine? (String.ofList line) := by
  obtain h | h := eq_chomp line
  · rw [h]
  · have hblank : Json.Blanks ['\r'] := by simp [Json.Blanks, Json.isBlank]
    conv_rhs => rw [← h]
    simp [Edit.ofLine?, Json.toOption_parse_append hblank]

/-! ## Edits -/

/-- The edits of the lines that are not blank, if each of these lines is one. -/
def parseLines (lines : List (List Char)) : Option (List Edit) :=
  (lines.filter fun line => !Blank.isBlank line).mapM fun line => Edit.ofLine? (String.ofList line)

theorem parseLines_cons (line : List Char) (lines : List (List Char)) :
    parseLines (line :: lines) = if Blank.isBlank line then parseLines lines
      else do
        let e ← Edit.ofLine? (String.ofList line)
        let es ← parseLines lines
        return e :: es := by
  unfold parseLines
  by_cases hblank : Blank.isBlank line = true
  · rw [if_pos hblank, List.filter_cons_of_neg (by simpa using hblank)]
  · rw [if_neg hblank, List.filter_cons_of_pos (by simpa using hblank), List.mapM_cons]

theorem parseLines_lines (cs : List Char) : parseLines (lines cs) = parseLines (cs.splitOn '\n') := by
  induction cs using lines_induction with
  | last line h =>
      rw [lines_of_not_mem h, List.splitOn_eq_singleton h]
      split
      · next hempty =>
          have hblank : Blank.isBlank [] = true := rfl
          rw [hempty, parseLines_cons, if_pos hblank]
      · rfl
  | next line rest h ih =>
      rw [lines_append h, List.splitOn_append_cons_self_of_not_mem h, parseLines_cons,
        parseLines_cons, isBlank_chomp, ofLine?_chomp, ih]

theorem toOption_editsOf (path : String) (number : Nat) (lines : List (List Char)) :
    (editsOf path number lines).toOption = parseLines lines := by
  induction lines generalizing number with
  | nil => rfl
  | cons line lines ih =>
      rw [parseLines_cons, ← ih (number + 1), editsOf]
      split
      · rfl
      · cases Edit.ofLine? (String.ofList line) with
        | none => rfl
        | some e => cases editsOf path (number + 1) lines <;> rfl

/-- The edits of a file are those of the lines between its newlines. -/
theorem editsOf_lines_eq_ok_iff {path : String} {number : Nat} {cs : List Char}
    {edits : List Edit} : editsOf path number (lines cs) = .ok edits ↔
      parseLines (cs.splitOn '\n') = some edits := by
  rw [eq_ok_iff_toOption, toOption_editsOf, parseLines_lines]

/-! ## Stray lines -/

/-- A line that is neither blank nor an edit. -/
def isStray (line : List Char) : Bool :=
  !Blank.isBlank line && (Edit.ofLine? (String.ofList line)).isNone

theorem isStray_chomp (line : List Char) : isStray (chomp line) = isStray line := by
  unfold isStray
  rw [isBlank_chomp, ofLine?_chomp]

/-- A text has a stray line exactly if something between its newlines is one. -/
theorem exists_isStray_iff (cs : List Char) : (∃ line ∈ lines cs, isStray line = true) ↔
    ∃ line ∈ cs.splitOn '\n', isStray line = true := by
  induction cs using lines_induction with
  | last line h =>
      rw [lines_of_not_mem h, List.splitOn_eq_singleton h]
      split
      · next hempty => simp [hempty, isStray, Blank.isBlank]
      · exact Iff.rfl
  | next line rest h ih =>
      rw [lines_append h, List.splitOn_append_cons_self_of_not_mem h]
      simp only [List.exists_mem_cons_iff, isStray_chomp, ih]

variable {path : String} {number : Nat} {line : List Char}

theorem editsOf_of_isStray (h : isStray line = true) (path : String) (number : Nat)
    (rest : List (List Char)) :
    editsOf path number (line :: rest) = .error (.badEdit path number) := by
  simp only [isStray, Bool.and_eq_true, Bool.not_eq_true', Option.isNone_iff_eq_none] at h
  unfold editsOf
  rw [h.1, h.2]
  rfl

theorem editsOf_of_not_isStray (h : isStray line = false) (path : String) (number : Nat)
    (rest : List (List Char)) (e : CommandError) :
    editsOf path number (line :: rest) = .error e ↔ editsOf path (number + 1) rest = .error e := by
  rw [editsOf]
  split
  · exact Iff.rfl
  · next hblank =>
      split
      · next hnone => simp [isStray, hblank, hnone] at h
      · cases editsOf path (number + 1) rest <;> simp [Except.map]

/-- The edits of lines are given up at the first stray line, whatever the lines before it hold, and
only if there is one. -/
theorem editsOf_eq_error_iff {lines : List (List Char)} {e : CommandError} :
    editsOf path number lines = .error e ↔
      (∃ line ∈ lines, isStray line = true) ∧
        e = .badEdit path (number + lines.findIdx isStray) := by
  induction lines generalizing number with
  | nil => simp [editsOf]
  | cons line rest ih =>
      rw [List.findIdx_cons]
      -- The first line decides if it is stray, and otherwise the rest, counted from one more.
      cases hstray : isStray line with
      | true =>
          rw [editsOf_of_isStray hstray, and_iff_right ⟨line, List.mem_cons_self, hstray⟩]
          exact ⟨fun h => (Except.error.inj h).symm, fun h => congrArg Except.error h.symm⟩
      | false =>
          rw [editsOf_of_not_isStray hstray, ih]
          simp [hstray, Nat.add_assoc, Nat.add_comm 1]

end NurseryRota.Command
