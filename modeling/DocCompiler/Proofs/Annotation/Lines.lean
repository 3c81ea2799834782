import DocCompiler.Proofs.Annotation.Located
import DocCompiler.Proofs.Annotation.Roundtrip

/-!
The lines of a text. Those behind a cursor start with the next line, and each of them is followed by
the lines behind it.
-/

namespace DocCompiler.Annotation

open Text

/-- A cursor behind a part of the text of another one, and behind the next character. -/
theorem Cursor.Within.of_append {text part : List Char} {c : Char} {cursor later : Cursor}
    (h : cursor.Within text) (hrest : cursor.rest = part ++ c :: later.rest)
    (hoffset : later.offset = cursor.offset + part.length + 1) : later.Within text := by
  have hadvance := h.advance (part.length + 1)
  have hlength : part.length + 1 = (part ++ [c]).length := by simp
  rwa [Cursor.advance, hrest, List.append_cons, hlength, List.drop_left, ← hlength, ← Nat.add_assoc,
    ← hoffset] at hadvance

/-- The lines behind the line that a cursor stands in. -/
def Cursor.laterLines (cursor : Cursor) : List Cursor :=
  lineStarts.behindBreaks cursor.offset cursor.rest

theorem lineStarts_eq_cons (line : Cursor) :
    lineStarts line.offset line.rest = line :: line.laterLines :=
  lineStarts_eq line.offset line.rest

/-- Each line is followed by the lines behind it. -/
def Consecutive : List Cursor → Prop
  | [] => True
  | line :: rest => rest = line.laterLines ∧ Consecutive rest

theorem Consecutive.laterLines (cursor : Cursor) : Consecutive cursor.laterLines := by
  obtain ⟨offset, rest⟩ := cursor
  induction rest generalizing offset with
  | nil => trivial
  | cons c rest ih =>
      rw [Cursor.laterLines, lineStarts.behindBreaks]
      split_ifs
      · exact ⟨rfl, ih (offset + 1)⟩
      · exact ih (offset + 1)

theorem Consecutive.lineStarts (line : Cursor) : Consecutive (lineStarts line.offset line.rest) := by
  rw [lineStarts_eq_cons]
  exact ⟨rfl, .laterLines line⟩

/-- What stands behind one of consecutive lines. -/
theorem Consecutive.eq_laterLines {before rest : List Cursor} {line : Cursor}
    (h : Consecutive (before ++ line :: rest)) : rest = line.laterLines := by
  induction before with
  | nil => exact h.1
  | cons first before ih => exact ih h.2

theorem behindBreaks_append (offset : Nat) (part rest : List Char) :
    lineStarts.behindBreaks offset (part ++ rest) =
      (lineStarts.behindBreaks offset part).map (fun line => ⟨line.offset, line.rest ++ rest⟩) ++
        lineStarts.behindBreaks (offset + part.length) rest := by
  induction part generalizing offset with
  | nil => rfl
  | cons c part ih =>
      rw [List.cons_append, lineStarts.behindBreaks, lineStarts.behindBreaks, ih, List.length_cons,
        Nat.add_right_comm, Nat.add_assoc]
      split_ifs <;> rfl

/-- Characters without a line break do not change which lines follow. -/
theorem laterLines_append {offset : Nat} {part rest : List Char} (h : '\n' ∉ part) :
    Cursor.laterLines ⟨offset, part ++ rest⟩ = Cursor.laterLines ⟨offset + part.length, rest⟩ := by
  rw [Cursor.laterLines, behindBreaks_append, behindBreaks_eq_nil h]
  rfl

/-- The later lines start with the next one, unless the text has no more line breaks. -/
theorem laterLines_cases (cursor : Cursor) :
    (cursor.laterLines = [] ∧ nextLine cursor = cursor.offset + cursor.rest.length) ∨
      ∃ part more, cursor.rest = part ++ '\n' :: more ∧
        nextLine cursor = cursor.offset + part.length + 1 ∧
          cursor.laterLines = lineStarts (nextLine cursor) more := by
  obtain ⟨offset, rest⟩ := cursor
  have hparts := (List.takeWhile_append_dropWhile (p := (· != '\n')) (l := rest)).symm
  have hpart : '\n' ∉ rest.takeWhile (· != '\n') := fun hmem => by
    simpa using List.all_eq_true.mp List.all_takeWhile _ hmem
  simp only [nextLine]
  generalize rest.takeWhile (· != '\n') = part at hparts hpart ⊢
  cases hbehind : rest.dropWhile (· != '\n') with
  | nil =>
      rw [hbehind, List.append_nil] at hparts
      subst hparts
      exact .inl ⟨behindBreaks_eq_nil hpart, by rw [if_neg (Nat.lt_irrefl _), Nat.add_zero]⟩
  | cons c more =>
      obtain rfl : c = '\n' := by
        have hne : rest.dropWhile (· != '\n') ≠ [] := by
          rw [hbehind]
          exact List.cons_ne_nil _ _
        simpa [hbehind] using List.head_dropWhile_not _ hne
      rw [hbehind] at hparts
      subst hparts
      rw [if_pos (by rw [List.length_append, List.length_cons]; omega)]
      refine .inr ⟨part, more, rfl, rfl, ?_⟩
      rw [laterLines_append hpart, lineStarts_eq]
      rfl

theorem le_of_mem_lineStarts {offset : Nat} {text : List Char} {line : Cursor}
    (h : line ∈ lineStarts offset text) : offset ≤ line.offset := by
  rw [lineStarts_eq] at h
  obtain rfl | h := List.mem_cons.mp h
  · exact Nat.le_refl _
  · obtain ⟨before, -, hoffset⟩ := behindBreaks_within h
    omega

theorem le_of_mem_laterLines {cursor line : Cursor} (h : line ∈ cursor.laterLines) :
    nextLine cursor ≤ line.offset := by
  obtain ⟨hnil, -⟩ | ⟨part, more, -, -, hlines⟩ := laterLines_cases cursor
  · rw [hnil] at h
    cases h
  · rw [hlines] at h
    exact le_of_mem_lineStarts h

theorem within_of_mem_laterLines {text : List Char} {cursor line : Cursor} (hcursor : cursor.Within text)
    (h : line ∈ cursor.laterLines) : line.Within text := by
  obtain ⟨before, hrest, hoffset⟩ := behindBreaks_within h
  exact hcursor.of_append hrest hoffset

theorem le_nextLine (cursor : Cursor) : cursor.offset ≤ nextLine cursor := by
  simp only [nextLine]
  omega

section Candidate

variable {line : Cursor} {candidate : Candidate} (h : candidate? line = some candidate)

include h

theorem candidate?_le : line.offset ≤ candidate.start.offset := by
  obtain ⟨blanks, rest, -, -, hstart, -⟩ := candidate?_spec h
  rw [hstart]
  exact Nat.le_add_right _ _

theorem candidate?_laterLines : candidate.start.laterLines = line.laterLines := by
  obtain ⟨offset, text⟩ := line
  obtain ⟨blanks, rest, hblanks, hrest, hstart, -⟩ := candidate?_spec h
  dsimp only at hrest hstart
  subst hrest
  rw [hstart, laterLines_append fun hmem => absurd (hblanks _ hmem) (by decide)]

end Candidate

end DocCompiler.Annotation
