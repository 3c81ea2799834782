import DocCompiler.Proofs.Text.Line
import DocCompiler.Source.Comment

/-!
Where the text of a doc comment stands in its source. The decoration that is taken off a line shifts
its columns, and what is left stands in the source as it is.
-/

namespace DocCompiler

open Text

theorem Text.indexOf?_spec {part text : List Char} {index : Nat} (h : indexOf? part text = some index) :
    index ≤ text.length ∧ ∃ after, text = text.take index ++ (part ++ after) := by
  induction text generalizing index with
  | nil =>
      rw [indexOf?, Option.ite_none_right_eq_some] at h
      obtain ⟨hempty, hindex⟩ := h
      obtain rfl : part = [] := by simpa using hempty
      exact ⟨Nat.le_of_eq (Option.some.inj hindex).symm, [], by simp⟩
  | cons c text ih =>
      rw [indexOf?] at h
      split at h
      · rename_i hprefix
        obtain ⟨after, hafter⟩ := List.isPrefixOf_iff_prefix.mp hprefix
        obtain rfl := Option.some.inj h
        exact ⟨Nat.zero_le _, after, hafter.symm⟩
      · obtain ⟨inner, hinner, rfl⟩ := Option.map_eq_some_iff.mp h
        obtain ⟨hle, after, hafter⟩ := ih hinner
        refine ⟨Nat.succ_le_succ hle, after, ?_⟩
        rw [List.take_succ_cons, List.cons_append, ← hafter]

theorem exists_of_opensDoc {text : List Char} (h : opensDoc text = true) :
    ∃ body, text = '/' :: '*' :: '*' :: body := by
  unfold opensDoc at h
  split at h
  · exact absurd h (by decide)
  · exact absurd h (by decide)
  · exact ⟨_, rfl⟩
  · exact absurd h (by decide)

/-- A doc comment stands in a text that starts at an offset. -/
structure DocComment.Within (comment : DocComment) (offset : Nat) (text before after : List Char) :
    Prop where
  text_eq : text = before ++ '/' :: '*' :: '*' :: (comment.inner ++ '*' :: '/' :: after)
  start_eq : comment.start = offset + before.length
  stop_eq : comment.stop = comment.start + comment.inner.length + 5

theorem exists_within {offset skip : Nat} {text : List Char} {comment : DocComment}
    (h : comment ∈ (docCommentsFrom offset skip text).1) :
    ∃ before after, comment.Within offset text before after := by
  induction text generalizing offset skip with
  | nil => simp [docCommentsFrom] at h
  | cons c rest ih =>
      have hlater {offset' skip' : Nat} (hoffset : offset' = offset + 1)
          (h : comment ∈ (docCommentsFrom offset' skip' rest).1) :
          ∃ before after, comment.Within offset (c :: rest) before after := by
        obtain ⟨before, after, htext, hstart, hstop⟩ := ih h
        refine ⟨c :: before, after, by rw [htext]; rfl, ?_, hstop⟩
        rw [hstart, hoffset, List.length_cons]
        omega
      rw [docCommentsFrom] at h
      split_ifs at h with hskip hopens
      · exact hlater rfl h
      · cases hindex : indexOf? ['*', '/'] (rest.drop 2) with
        | none => simp [hindex] at h
        | some length =>
            simp only [hindex, List.mem_cons] at h
            obtain rfl | h := h
            · obtain ⟨body, hbody⟩ := exists_of_opensDoc hopens
              obtain ⟨rfl, rfl⟩ := List.cons.inj hbody
              obtain ⟨hle, after, hafter⟩ := indexOf?_spec hindex
              refine ⟨[], after, ?_, rfl, ?_⟩
              · exact congrArg (fun body => '/' :: '*' :: '*' :: body) hafter
              · simp only [List.drop_succ_cons, List.drop_zero] at hle ⊢
                rw [List.length_take, Nat.min_eq_left hle]
            · exact hlater rfl h
      · exact hlater rfl h

theorem exists_trimEnd (text : List Char) : ∃ trail, text = trimEnd text ++ trail := by
  refine ⟨(text.reverse.takeWhile isBlank).reverse, ?_⟩
  rw [trimEnd, dropEndWhile, ← List.reverse_append, List.takeWhile_append_dropWhile, List.reverse_reverse]

theorem exists_trimStart (text : List Char) : ∃ lead, text = lead ++ trimStart text :=
  ⟨text.takeWhile isBlank, List.takeWhile_append_dropWhile.symm⟩

theorem decorationWidth_le (line : List Char) : decorationWidth line ≤ line.length := by
  have hblanks : (line.takeWhile isInlineBlank).length ≤ line.length :=
    (List.takeWhile_prefix _).length_le
  have hdrop := List.length_drop (i := (line.takeWhile isInlineBlank).length) (l := line)
  rw [decorationWidth]
  split
  · exact Nat.zero_le _
  · exact Nat.zero_le _
  · rename_i hline
    rw [hline] at hdrop
    simp only [List.length_cons] at hdrop
    omega
  · rename_i hline
    rw [hline] at hdrop
    simp only [List.length_cons] at hdrop
    omega
  · exact Nat.zero_le _

/-- The column of the first character of a line of a comment without its decoration. -/
def lineStart (firstColumn index : Nat) : Nat :=
  if index = 0 then firstColumn else 1

/-- A line without its decoration stands in the line that it comes from. -/
theorem cleanLines_spec {firstColumn index : Nat} {inner chars : List Char} {column : Int}
    (h : (cleanLines firstColumn inner)[index]? = some (chars, column)) :
    ∃ lead trail, (inner.splitOn '\n')[index]? = some (lead ++ (chars ++ trail)) ∧
      column = ((lineStart firstColumn index + lead.length : Nat) : Int) := by
  rw [cleanLines] at h
  cases hlines : inner.splitOn '\n' with
  | nil => simp [hlines] at h
  | cons first rest =>
      rw [hlines] at h
      cases index with
      | zero =>
          obtain ⟨hchars, hcolumn⟩ := Prod.mk.inj (Option.some.inj h)
          obtain ⟨lead, hlead⟩ := exists_trimStart first
          obtain ⟨trail, htrail⟩ := exists_trimEnd (trimStart first)
          refine ⟨lead, trail, ?_, ?_⟩
          · rw [List.getElem?_cons_zero, ← hchars, ← htrail, ← hlead]
          · have hlength := congrArg List.length hlead
            rw [List.length_append] at hlength
            rw [← hcolumn, lineStart, if_pos rfl, hlength, Nat.add_sub_cancel]
      | succ index =>
          rw [List.getElem?_cons_succ, List.getElem?_map] at h
          obtain ⟨line, hline, hclean⟩ := Option.map_eq_some_iff.mp h
          obtain ⟨hchars, hcolumn⟩ := Prod.mk.inj hclean
          obtain ⟨trail, htrail⟩ := exists_trimEnd (line.drop (decorationWidth line))
          refine ⟨line.take (decorationWidth line), trail, ?_, ?_⟩
          · rw [List.getElem?_cons_succ, hline, ← hchars, ← htrail, List.take_append_drop]
          · rw [← hcolumn, lineStart, if_neg (Nat.succ_ne_zero index), List.length_take,
              Nat.min_eq_left (decorationWidth_le line)]
            omega

theorem length_cleanLines (firstColumn : Nat) (inner : List Char) :
    (cleanLines firstColumn inner).length = (inner.splitOn '\n').length := by
  rw [cleanLines]
  cases inner.splitOn '\n' with
  | nil => rfl
  | cons first rest => simp

theorem cleanLines_ne_nil (firstColumn : Nat) (inner : List Char) : cleanLines firstColumn inner ≠ [] := by
  rw [← List.length_pos_iff, length_cleanLines, length_splitOn]
  exact Nat.succ_pos _

/-- The lines of the text of a comment are its lines without decoration. -/
theorem splitOn_cleanLines (firstColumn : Nat) (inner : List Char) :
    (['\n'].intercalate ((cleanLines firstColumn inner).map (·.1))).splitOn '\n' =
      (cleanLines firstColumn inner).map (·.1) := by
  refine List.splitOn_intercalate '\n' ?_ (by simpa using cleanLines_ne_nil firstColumn inner)
  intro chars hchars
  obtain ⟨⟨chars, column⟩, hline, rfl⟩ := List.mem_map.mp hchars
  obtain ⟨index, hindex⟩ := List.mem_iff_getElem?.mp hline
  obtain ⟨lead, trail, hraw, -⟩ := cleanLines_spec hindex
  have hnewline := newline_notMem_of_mem_splitOn (List.mem_of_getElem? hraw)
  simp only [List.mem_append, not_or] at hnewline
  exact hnewline.2.1

/-- A block of a source: the block of one of its doc comments. -/
theorem exists_comment_of_mem {identity : String} {text : List Char} {detector : Option Detector}
    {block : Block} (h : block ∈ (extractBlocks identity text detector).1) :
    ∃ (comment : DocComment) (before after : List Char), comment.Within 0 text before after ∧
      ∃ spans, block = comment.block identity detector spans text := by
  obtain ⟨comment, hcomment, rfl⟩ := List.mem_map.mp h
  obtain ⟨before, after, hwithin⟩ := exists_within hcomment
  exact ⟨comment, before, after, hwithin, _, rfl⟩

namespace DocComment.Within

variable {comment : DocComment} {text before after : List Char} (h : comment.Within 0 text before after)

include h

theorem lineOf_start : lineOf text comment.start = before.count '\n' + 1 := by
  rw [h.text_eq, h.start_eq, Nat.zero_add, lineOf_append]

theorem columnOf_start : columnOf text comment.start = (lastLine before).length + 1 := by
  rw [h.text_eq, h.start_eq, Nat.zero_add, columnOf_append]

theorem lineOf_stop :
    lineOf text comment.stop = before.count '\n' + comment.inner.count '\n' + 1 := by
  have hassoc : text = before ++ '/' :: '*' :: '*' :: (comment.inner ++ ['*', '/']) ++ after := by
    simpa using h.text_eq
  have hstop : comment.stop = (before ++ '/' :: '*' :: '*' :: (comment.inner ++ ['*', '/'])).length := by
    rw [h.stop_eq, h.start_eq]
    simp only [List.length_append, List.length_cons, List.length_nil]
    omega
  rw [hassoc, hstop, lineOf_append]
  simp

end DocComment.Within

/-- A line of a comment in its source. -/
theorem DocComment.Within.getElem?_splitOn {comment : DocComment} {text before after line : List Char}
    {index : Nat} (h : comment.Within 0 text before after)
    (hline : (comment.inner.splitOn '\n')[index]? = some line) :
    ∃ lead more, (text.splitOn '\n')[before.count '\n' + index]? = some (lead ++ (line ++ more)) ∧
      lead.length + 1 = lineStart (columnOf text (comment.start + 3)) index := by
  obtain ⟨more, hmore⟩ := getElem?_splitOn_append_left hline ('*' :: '/' :: after)
  have htext : text = before ++ ['/', '*', '*'] ++ (comment.inner ++ '*' :: '/' :: after) := by
    simpa using h.text_eq
  have hcount : (before ++ ['/', '*', '*']).count '\n' = before.count '\n' := by simp
  have hopening : comment.start + 3 = (before ++ ['/', '*', '*']).length := by simp [h.start_eq]
  cases index with
  | zero =>
      have hfirst := getElem?_splitOn_zero (comment.inner ++ '*' :: '/' :: after)
      rw [hmore] at hfirst
      refine ⟨lastLine (before ++ ['/', '*', '*']), more, ?_, ?_⟩
      · rw [htext, Nat.add_zero, ← hcount, getElem?_splitOn_append, ← Option.some.inj hfirst]
      · rw [lineStart, if_pos rfl, htext, hopening, columnOf_append]
  | succ index =>
      refine ⟨[], more, ?_, rfl⟩
      rw [htext, ← hcount, getElem?_splitOn_append_succ, hmore, List.nil_append]

section Location

variable {identity : String} {text : List Char} {detector : Option Detector} {block : Block}
  (h : block ∈ (extractBlocks identity text detector).1)

include h

/-- Every offset of the text of a block leads to a place of the source where the same characters stand
up to the end of the line. -/
theorem location_spec {before rest : List Char} (htext : block.text.toList = before ++ rest) :
    ∃ line column : Nat, 0 < line ∧ 0 < column ∧
      block.location before.length = ⟨identity, some line, some column⟩ ∧
        firstLine rest <+: lineFrom text line column := by
  obtain ⟨comment, opening, after, hwithin, spans, rfl⟩ := exists_comment_of_mem h
  have hlines := splitOn_cleanLines (columnOf text (comment.start + 3)) comment.inner
  simp only [DocComment.block, String.toList_ofList] at htext
  have hline := getElem?_splitOn_append before rest
  rw [← htext, hlines, List.getElem?_map] at hline
  obtain ⟨⟨chars, column⟩, hclean, hchars⟩ := Option.map_eq_some_iff.mp hline
  obtain rfl : chars = lastLine before ++ firstLine rest := hchars
  obtain ⟨lead, trail, hraw, hcolumn⟩ := cleanLines_spec hclean
  obtain ⟨margin, more, hsource, hmargin⟩ := hwithin.getElem?_splitOn hraw
  refine ⟨opening.count '\n' + 1 + before.count '\n',
    margin.length + 1 + lead.length + (lastLine before).length, by omega, by omega, ?_, ?_⟩
  · have hfirst : ((cleanLines (columnOf text (comment.start + 3)) comment.inner).map (·.2))[
        before.count '\n']? = some column := by
      rw [List.getElem?_map, hclean]
      rfl
    simp only [Block.location, DocComment.block, String.toList_ofList, htext, locate, List.take_left,
      hfirst, hwithin.lineOf_start, columnOf_append]
    rw [hcolumn, hmargin, Location.mk.injEq, Option.some.injEq, Option.some.injEq]
    have hsum (width start : Nat) :
        ((width + 1 : Nat) : Int) - 1 + (start : Int) = ((start + width : Nat) : Int) := by omega
    exact ⟨rfl, by omega, hsum _ _⟩
  · have hindex : opening.count '\n' + 1 + before.count '\n' - 1 =
        opening.count '\n' + before.count '\n' := by omega
    have hdrop : margin.length + 1 + lead.length + (lastLine before).length - 1 =
        (margin ++ (lead ++ lastLine before)).length := by
      simp only [List.length_append]
      omega
    have hassoc : margin ++ (lead ++ (lastLine before ++ firstLine rest ++ trail) ++ more) =
        margin ++ (lead ++ lastLine before) ++ (firstLine rest ++ (trail ++ more)) := by simp
    rw [lineFrom, hindex, hdrop, hsource, Option.getD_some, hassoc, List.drop_left]
    exact List.prefix_append _ _

/-- The lines of a block are those of its comment. -/
theorem startLine_add_count_le (offset : Nat) :
    block.startLine + ((block.text.toList.take offset).count '\n' : Nat) ≤ block.endLine := by
  obtain ⟨comment, opening, after, hwithin, spans, rfl⟩ := exists_comment_of_mem h
  have hlines := congrArg List.length
    (splitOn_cleanLines (columnOf text (comment.start + 3)) comment.inner)
  rw [length_splitOn, List.length_map, length_cleanLines, length_splitOn] at hlines
  have hcount := (List.take_sublist offset (['\n'].intercalate
    ((cleanLines (columnOf text (comment.start + 3)) comment.inner).map (·.1)))).count_le '\n'
  simp only [DocComment.block, String.toList_ofList, hwithin.lineOf_start, hwithin.lineOf_stop]
  omega

end Location

/-- A place stands before another one in their source. -/
def Location.Precedes (place other : Location) : Prop :=
  ∃ line column otherLine otherColumn, place.line = some line ∧ place.column = some column ∧
    other.line = some otherLine ∧ other.column = some otherColumn ∧
      (line < otherLine ∨ line = otherLine ∧ column < otherColumn)

theorem Text.lastLine_append {before part : List Char} (h : '\n' ∉ part) :
    lastLine (before ++ part) = lastLine before ++ part := by
  have hpart : ∀ c ∈ part.reverse, (c != '\n') = true := by
    intro c hc
    rw [bne_iff_ne]
    rintro rfl
    exact h (List.mem_reverse.mp hc)
  rw [lastLine, List.reverse_append, List.takeWhile_append_of_pos hpart, List.reverse_append,
    List.reverse_reverse, lastLine]

/-- Later offsets of a block lead to later places. -/
theorem Block.location_precedes (block : Block) {offset other : Nat} (hlt : offset < other)
    (hle : other ≤ block.text.toList.length) :
    (block.location offset).Precedes (block.location other) := by
  generalize htext : block.text.toList = text at hle
  obtain ⟨before, rest, rfl, rfl⟩ : ∃ before rest, text = before ++ rest ∧ before.length = offset :=
    ⟨text.take offset, text.drop offset, (List.take_append_drop _ _).symm, by simp; omega⟩
  obtain ⟨part, after, rfl, hpart⟩ : ∃ part after, rest = part ++ after ∧ (before ++ part).length = other :=
    ⟨rest.take (other - before.length), rest.drop (other - before.length),
      (List.take_append_drop _ _).symm, by simp at *; omega⟩
  have htake : (before ++ (part ++ after)).take other = before ++ part := by
    rw [← List.append_assoc, ← hpart, List.take_left]
  have hpositive : 0 < part.length := by
    rw [List.length_append] at hpart
    omega
  refine ⟨_, _, _, _, rfl, rfl, rfl, rfl, ?_⟩
  simp only [htext, htake, List.take_left, List.count_append]
  by_cases hnewline : '\n' ∈ part
  · have hcount := List.count_pos_iff.mpr hnewline
    omega
  · have hcount : part.count '\n' = 0 := List.count_eq_zero.mpr hnewline
    rw [hcount, Nat.add_zero]
    refine .inr ⟨rfl, ?_⟩
    have hcolumn : columnOf (before ++ (part ++ after)) before.length <
        columnOf (before ++ (part ++ after)) other := by
      rw [columnOf, columnOf, ← length_lastLine, ← length_lastLine, htake, List.take_left,
        lastLine_append hnewline]
      simp only [List.length_append] at hpart ⊢
      omega
    omega

end DocCompiler
