import Mathlib.Data.Bool.AllAny
import Mathlib.Data.List.Basic
import DocCompiler.Text.Blank
import DocCompiler.Text.Word
import Mathlib.Data.List.TakeWhile
import Mathlib.Tactic.SplitIfs
import DocCompiler.Text.Split

/-!
The longest part of a text whose characters are of one class, characters that are of no class of words, the lines
of a text, and what stands at a line and a column.
-/

namespace DocCompiler.Text

section Spans

/-- A text that is empty or starts with a character of which a test fails. -/
def Stops (test : Char → Bool) (text : List Char) : Prop :=
  ∀ c, text.head? = some c → test c = false

theorem Stops.cons {test : Char → Bool} {c : Char} {rest : List Char} (h : test c = false) :
    Stops test (c :: rest) := by
  rintro other hother
  obtain rfl := Option.some.inj hother
  exact h

theorem Stops.head {test : Char → Bool} {c : Char} {rest : List Char}
    (h : Stops test (c :: rest)) : test c = false :=
  h c rfl

theorem stops_dropWhile (test : Char → Bool) (text : List Char) : Stops test (text.dropWhile test) := by
  intro c hc
  have hnot := List.head?_dropWhile_not test text
  rw [hc] at hnot
  simpa using hnot

theorem drop_length_takeWhile (test : Char → Bool) (text : List Char) :
    text.drop (text.takeWhile test).length = text.dropWhile test := by
  have hsplit : text = text.takeWhile test ++ text.dropWhile test := List.takeWhile_append_dropWhile.symm
  exact (congrArg (List.drop _) hsplit).trans List.drop_left

section Span

variable {test : Char → Bool} {part rest : List Char}

theorem takeWhile_of_stops (hrest : Stops test rest) : rest.takeWhile test = [] := by
  cases rest with
  | nil => rfl
  | cons c rest => simp [hrest.head]

theorem takeWhile_append_of_stops (hpart : ∀ c ∈ part, test c = true) (hrest : Stops test rest) :
    (part ++ rest).takeWhile test = part := by
  rw [List.takeWhile_append_of_pos hpart, takeWhile_of_stops hrest, List.append_nil]

end Span

/-- The code points of white space. -/
def blankCodes : List Nat :=
  [9, 10, 11, 12, 13, 28, 29, 30, 31, 32, 0x85, 0xA0, 0x1680, 0x2000, 0x2001, 0x2002, 0x2003,
    0x2004, 0x2005, 0x2006, 0x2007, 0x2008, 0x2009, 0x200A, 0x2028, 0x2029, 0x202F, 0x205F, 0x3000]

theorem toNat_mem_blankCodes {c : Char} (h : isBlank c = true) : c.toNat ∈ blankCodes := by
  simp only [isBlank, Bool.or_eq_true, Bool.and_eq_true, decide_eq_true_eq, beq_iff_eq] at h
  simp only [blankCodes, List.mem_cons, List.not_mem_nil, or_false]
  omega

theorem isBlank_induction {p : Char → Prop} (h : ∀ code ∈ blankCodes, p (Char.ofNat code)) {c : Char}
    (hc : isBlank c = true) : p c := by
  have hp := h c.toNat (toNat_mem_blankCodes hc)
  rwa [Char.ofNat_toNat] at hp

theorem isWord_of_isBlank {c : Char} (h : isBlank c = true) : isWord c = false :=
  isBlank_induction (p := fun c => isWord c = false) (by decide +kernel) h

theorem isDecimal_of_isBlank {c : Char} (h : isBlank c = true) : isDecimal c = false :=
  isBlank_induction (p := fun c => isDecimal c = false) (by decide +kernel) h

theorem isBlank_of_isInlineBlank {c : Char} (h : isInlineBlank c = true) : isBlank c = true := by
  rcases Bool.or_eq_true_iff.mp h with h | h <;> rw [eq_of_beq h] <;> decide

end Spans

/-- What stands from a column of a line on, up to the end of the line. Lines and columns count from
one. -/
def lineFrom (text : List Char) (line column : Nat) : List Char :=
  ((text.splitOn '\n')[line - 1]?.getD []).drop (column - 1)

/-- The part of a text up to its first line break. -/
def firstLine (text : List Char) : List Char :=
  text.takeWhile (· != '\n')

/-- The part of a text behind its last line break. -/
def lastLine (text : List Char) : List Char :=
  (text.reverse.takeWhile (· != '\n')).reverse

theorem splitOn_newline_cons (c : Char) (text : List Char) :
    (c :: text).splitOn '\n' =
      if c = '\n' then [] :: text.splitOn '\n' else (text.splitOn '\n').modifyHead (c :: ·) := by
  simp [List.splitOn_cons_eq_if_modifyHead]

theorem newline_notMem_firstLine (text : List Char) : '\n' ∉ firstLine text := by
  intro h
  simpa using List.all_eq_true.mp List.all_takeWhile _ h

theorem firstLine_of_notMem {text : List Char} (h : '\n' ∉ text) : firstLine text = text := by
  have hall : ∀ c ∈ text, (c != '\n') = true := by
    intro c hc
    rw [bne_iff_ne]
    rintro rfl
    exact h hc
  exact List.takeWhile_eq_self_iff.mpr hall

theorem lastLine_of_notMem {text : List Char} (h : '\n' ∉ text) : lastLine text = text := by
  have hreverse : firstLine text.reverse = text.reverse := firstLine_of_notMem (by simpa using h)
  rw [firstLine] at hreverse
  rw [lastLine, hreverse, List.reverse_reverse]

theorem lastLine_cons_of_mem {c : Char} {text : List Char} (h : '\n' ∈ text) :
    lastLine (c :: text) = lastLine text := by
  have hshort : (text.reverse.takeWhile (· != '\n')).length ≠ text.reverse.length := by
    intro hlength
    have heq := (List.takeWhile_prefix _).eq_of_length hlength
    refine newline_notMem_firstLine text.reverse ?_
    rw [firstLine, heq]
    exact List.mem_reverse.mpr h
  rw [lastLine, List.reverse_cons, List.takeWhile_append, if_neg hshort, lastLine]

theorem lastLine_newline_cons (text : List Char) : lastLine ('\n' :: text) = lastLine text := by
  by_cases h : '\n' ∈ text
  · exact lastLine_cons_of_mem h
  · have hreverse : firstLine text.reverse = text.reverse := firstLine_of_notMem (by simpa using h)
    rw [firstLine] at hreverse
    rw [lastLine_of_notMem h, lastLine, List.reverse_cons, List.takeWhile_append, hreverse, if_pos rfl]
    simp

/-- The first line of a text. -/
theorem getElem?_splitOn_zero (text : List Char) : (text.splitOn '\n')[0]? = some (firstLine text) := by
  induction text with
  | nil => rfl
  | cons c text ih =>
      rw [splitOn_newline_cons]
      split_ifs with hc
      · simp [firstLine, hc]
      · rw [List.getElem?_modifyHead, ih]
        simp [firstLine, hc]

/-- The line that goes on behind a text. -/
theorem getElem?_splitOn_append (before rest : List Char) :
    ((before ++ rest).splitOn '\n')[before.count '\n']? = some (lastLine before ++ firstLine rest) := by
  induction before with
  | nil => exact getElem?_splitOn_zero rest
  | cons c before ih =>
      rw [List.cons_append, splitOn_newline_cons]
      split_ifs with hc
      · rw [hc, List.count_cons_self, lastLine_newline_cons]
        exact ih
      · rw [List.count_cons_of_ne hc]
        by_cases hmem : '\n' ∈ before
        · obtain ⟨index, hindex⟩ := Nat.exists_eq_succ_of_ne_zero
            (Nat.ne_of_gt (List.count_pos_iff.mpr hmem))
          rw [lastLine_cons_of_mem hmem, ← ih, hindex]
          cases (before ++ rest).splitOn '\n' <;> rfl
        · have hcount : before.count '\n' = 0 := List.count_eq_zero.mpr hmem
          have hboth : '\n' ∉ c :: before := by
            rw [List.mem_cons, not_or]
            exact ⟨Ne.symm hc, hmem⟩
          rw [hcount, lastLine_of_notMem hmem] at ih
          rw [hcount, lastLine_of_notMem hboth, List.getElem?_modifyHead, ih]
          rfl

/-- The lines behind the one that goes on behind a text. -/
theorem getElem?_splitOn_append_succ (before rest : List Char) (index : Nat) :
    ((before ++ rest).splitOn '\n')[before.count '\n' + (index + 1)]? =
      (rest.splitOn '\n')[index + 1]? := by
  induction before with
  | nil => simp
  | cons c before ih =>
      rw [List.cons_append, splitOn_newline_cons, ← ih]
      split_ifs with hc
      · rw [hc, List.count_cons_self, Nat.add_right_comm]
        rfl
      · rw [List.count_cons_of_ne hc]
        cases (before ++ rest).splitOn '\n' <;> rfl

theorem length_splitOn (text : List Char) : (text.splitOn '\n').length = text.count '\n' + 1 := by
  induction text with
  | nil => rfl
  | cons c text ih =>
      rw [splitOn_newline_cons]
      split_ifs with hc
      · rw [hc, List.count_cons_self, List.length_cons, ih]
      · rw [List.count_cons_of_ne hc, List.length_modifyHead, ih]

theorem newline_notMem_of_mem_splitOn {text line : List Char} (h : line ∈ text.splitOn '\n') :
    '\n' ∉ line := by
  induction text generalizing line with
  | nil =>
      obtain rfl : line = [] := by simpa using h
      simp
  | cons c text ih =>
      rw [splitOn_newline_cons] at h
      split_ifs at h with hc
      · obtain rfl | h := List.mem_cons.mp h
        · simp
        · exact ih h
      · cases hlines : text.splitOn '\n' with
        | nil => simp [hlines] at h
        | cons first rest =>
            rw [hlines] at ih h
            rw [List.modifyHead_cons] at h
            obtain rfl | h := List.mem_cons.mp h
            · rw [List.mem_cons, not_or]
              exact ⟨Ne.symm hc, ih List.mem_cons_self⟩
            · exact ih (List.mem_cons_of_mem _ h)

/-- A line of a text starts a line of what the text starts. -/
theorem getElem?_splitOn_append_left {text line : List Char} {index : Nat}
    (h : (text.splitOn '\n')[index]? = some line) (rest : List Char) :
    ∃ more, ((text ++ rest).splitOn '\n')[index]? = some (line ++ more) := by
  induction text generalizing line index with
  | nil =>
      obtain ⟨rfl, rfl⟩ : index = 0 ∧ line = [] := by
        cases index <;> simp_all
      exact ⟨firstLine rest, getElem?_splitOn_zero rest⟩
  | cons c text ih =>
      rw [splitOn_newline_cons] at h
      rw [List.cons_append, splitOn_newline_cons]
      split_ifs at h ⊢ with hc
      · cases index with
        | zero =>
            obtain rfl : line = [] := by simpa using h.symm
            exact ⟨[], rfl⟩
        | succ index => exact ih h
      · cases index with
        | zero =>
            obtain ⟨first, hfirst, rfl⟩ : ∃ first, (text.splitOn '\n')[0]? = some first ∧ c :: first = line := by
              simpa [List.getElem?_modifyHead] using h
            obtain ⟨more, hmore⟩ := ih hfirst
            exact ⟨more, by rw [List.getElem?_modifyHead, hmore]; rfl⟩
        | succ index =>
            have hline : (text.splitOn '\n')[index + 1]? = some line := by
              simpa [List.getElem?_modifyHead] using h
            obtain ⟨more, hmore⟩ := ih hline
            exact ⟨more, by rw [List.getElem?_modifyHead, hmore]; rfl⟩

theorem length_lastLine (text : List Char) (offset : Nat) :
    (lastLine (text.take offset)).length = indentOf text offset := by
  rw [lastLine, List.length_reverse, indentOf]

/-- The line and the column of what stands behind a text. -/
theorem lineOf_append (before rest : List Char) :
    lineOf (before ++ rest) before.length = before.count '\n' + 1 := by
  rw [lineOf, List.take_left]

theorem columnOf_append (before rest : List Char) :
    columnOf (before ++ rest) before.length = (lastLine before).length + 1 := by
  have hwithin : before.length - (before ++ rest).length = 0 := by simp
  rw [columnOf, hwithin, ← length_lastLine, List.take_left, Nat.add_zero]

end DocCompiler.Text
