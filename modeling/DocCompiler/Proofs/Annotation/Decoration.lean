import DocCompiler.Proofs.Annotation.Mark
import DocCompiler.Proofs.Annotation.Print
import DocCompiler.Proofs.Annotation.Recast
import DocCompiler.Proofs.Source.Split

/-!
Decorated comments. The lines that are written behind blanks, a star and a space are the lines of the
text of the block, and what is read from it depends on them alone, but for the places.
-/

namespace DocCompiler

open Text

/-- A line of a comment with the blanks in front of its star. -/
structure CommentLine where
  indent : List Char
  content : List Char

/-- A line as it is written in a comment. -/
def CommentLine.decorated (line : CommentLine) : List Char :=
  line.indent ++ '*' :: ' ' :: line.content

/-- A line that can be written in a comment. -/
structure CommentLine.Plain (line : CommentLine) : Prop where
  indent : ∀ c ∈ line.indent, isInlineBlank c = true
  newline : '\n' ∉ line.content
  closed : ¬ ['*', '/'] <:+: line.content
  trimmed : trimEnd line.content = line.content

/-- What stands between the marks of a comment with some lines. -/
def decoratedInner (lines : List CommentLine) (closing : List Char) : List Char :=
  '\n' :: (['\n'].intercalate (lines.map CommentLine.decorated) ++ '\n' :: closing)

/-- A comment with some lines, and with blanks in front of the mark that closes it. -/
def decorate (lines : List CommentLine) (closing : List Char) : List Char :=
  '/' :: '*' :: '*' :: (decoratedInner lines closing ++ ['*', '/'])

/-- The text of a comment with some lines. -/
def undecorated (lines : List CommentLine) : List Char :=
  '\n' :: (['\n'].intercalate (lines.map (·.content)) ++ ['\n'])

section Marks

variable {mark rest : List Char} {c : Char}

/-- What does not have a character does not stand across it. -/
theorem infix_append_cons (part : List Char) (hc : c ∉ mark) (h : mark <:+: part ++ c :: rest) :
    mark <:+: part ∨ mark <:+: rest := by
  have hnone {piece : List Char} (hpiece : c ∉ piece) (h : piece <+: c :: rest) : piece = [] := by
    rcases List.prefix_cons_iff.mp h with rfl | ⟨more, rfl, -⟩
    · rfl
    · exact absurd List.mem_cons_self hpiece
  rcases List.infix_append_iff.mp h with hpart | hrest | ⟨front, back, rfl, hfront, hback⟩
  · exact .inl hpart
  · rcases List.infix_cons_iff.mp hrest with hstart | hlater
    · exact .inl (hnone hc hstart ▸ List.nil_infix)
    · exact .inr hlater
  · obtain rfl := hnone (fun hmem => hc (List.mem_append_right _ hmem)) hback
    rw [List.append_nil]
    exact .inl hfront.isInfix

theorem not_infix_intercalate {rows : List (List Char)} (hc : c ∉ mark) (hne : mark ≠ [])
    (h : ∀ row ∈ rows, ¬ mark <:+: row) : ¬ mark <:+: [c].intercalate rows := by
  induction rows with
  | nil => simpa using hne
  | cons row rows ih =>
      rw [List.forall_mem_cons] at h
      by_cases hrows : rows = []
      · rw [hrows, List.intercalate_singleton]
        exact h.1
      · rw [List.intercalate_cons_of_ne_nil hrows, List.append_assoc, List.singleton_append]
        exact fun hacross => (infix_append_cons row hc hacross).elim h.1 (ih h.2)

end Marks

theorem intercalate_concat {rows : List (List Char)} (hne : rows ≠ []) (c : Char) (last : List Char) :
    [c].intercalate (rows ++ [last]) = [c].intercalate rows ++ c :: last := by
  induction rows with
  | nil => exact absurd rfl hne
  | cons row rows ih =>
      by_cases hrows : rows = []
      · simp [hrows]
      · rw [List.cons_append, List.intercalate_cons_of_ne_nil (by simp), ih hrows,
          List.intercalate_cons_of_ne_nil hrows, List.append_assoc _ _ (c :: last)]

theorem notMem_of_isInlineBlank {blanks : List Char} (mark : Char)
    (hblanks : ∀ c ∈ blanks, isInlineBlank c = true) (hmark : isInlineBlank mark = false) :
    mark ∉ blanks := by
  intro hmem
  rw [hblanks mark hmem] at hmark
  cases hmark

/-- The mark of a comment opens no other one in front of it. -/
theorem OpensDocIn.of_mark {part rest : List Char} (h : OpensDocIn part ('/' :: '*' :: '*' :: rest)) :
    OpensDocIn part [] := by
  obtain ⟨lead, tail, hsplit, hne, hopens⟩ := h
  refine ⟨lead, tail, hsplit, hne, ?_⟩
  generalize htext : tail ++ '/' :: '*' :: '*' :: rest = text at hopens
  obtain @⟨more, hstar, hslash⟩ := hopens
  match tail, htext with
  | [], _ => exact absurd rfl hne
  | [_], htext => simp at htext
  | [_, _], htext => simp at htext
  | [_, _, _], htext =>
      obtain rfl : '/' :: '*' :: '*' :: rest = more := by simpa using congrArg (List.drop 3) htext
      exact absurd rfl hslash
  | a :: b :: c :: d :: tail, htext =>
      obtain ⟨rfl, rfl, rfl, rfl⟩ : a = '/' ∧ b = '*' ∧ c = '*' ∧
          d :: (tail ++ '/' :: '*' :: '*' :: rest) = more := by simpa using htext
      exact .intro hstar hslash

namespace CommentLine.Plain

variable {line : CommentLine} (h : line.Plain)

include h

theorem notMem_indent (mark : Char) (hmark : isInlineBlank mark = false) : mark ∉ line.indent :=
  notMem_of_isInlineBlank mark h.indent hmark

theorem newline_notMem : '\n' ∉ line.decorated := by
  simp [CommentLine.decorated, h.notMem_indent '\n' rfl, h.newline]

theorem not_closed : ¬ ['*', '/'] <:+: line.decorated := by
  have hsplit : line.decorated = (line.indent ++ ['*']) ++ ' ' :: line.content := by
    simp [CommentLine.decorated]
  rw [hsplit]
  intro hmark
  rcases infix_append_cons _ (by decide) hmark with hfront | hcontent
  · have hslash : '/' ∈ line.indent ++ ['*'] := hfront.subset (by simp)
    simp [h.notMem_indent '/' rfl] at hslash
  · exact h.closed hcontent

/-- The decoration that is taken off a line is that which it was given. -/
theorem cleanLine_eq :
    cleanLine line.decorated = (line.content, ((line.indent.length + 3 : Nat) : Int)) := by
  have htake : line.decorated.takeWhile isInlineBlank = line.indent :=
    takeWhile_append_of_stops h.indent (.cons rfl)
  have hdrop : line.decorated.drop line.indent.length = '*' :: ' ' :: line.content := List.drop_left
  have hwidth : decorationWidth line.decorated = line.indent.length + 2 := by
    rw [decorationWidth, htake, hdrop]
    rfl
  have hcontent : line.decorated.drop (line.indent.length + 2) = line.content := by
    rw [← List.drop_drop, hdrop]
    rfl
  rw [cleanLine, hwidth, hcontent, h.trimmed]
  rfl

end CommentLine.Plain

/-- The rows of the decorated lines of a comment, of which there is always one. -/
theorem exists_rows {lines : List CommentLine} (hlines : ∀ line ∈ lines, line.Plain) :
    ∃ rows : List (List Char), rows ≠ [] ∧
      ['\n'].intercalate rows = ['\n'].intercalate (lines.map CommentLine.decorated) ∧
      (∀ row ∈ rows, '\n' ∉ row) ∧
      ['\n'].intercalate (rows.map fun row => (cleanLine row).1) =
        ['\n'].intercalate (lines.map (·.content)) ∧
      ∀ (index : Nat) (line : CommentLine), lines[index]? = some line →
        (rows.map cleanLine)[index]? = some (line.content, ((line.indent.length + 3 : Nat) : Int)) := by
  cases lines with
  -- Without lines there is still the row between the two line breaks.
  | nil => exact ⟨[[]], by simp, rfl, by simp, rfl, nofun⟩
  | cons first lines =>
      have hclean : ((first :: lines).map CommentLine.decorated).map cleanLine =
          (first :: lines).map fun line => (line.content, ((line.indent.length + 3 : Nat) : Int)) := by
        rw [List.map_map]
        exact List.map_congr_left fun line hline => (hlines line hline).cleanLine_eq
      refine ⟨(first :: lines).map CommentLine.decorated, by simp, rfl, fun row hrow => ?_, ?_, ?_⟩
      · obtain ⟨line, hline, rfl⟩ := List.mem_map.mp hrow
        exact (hlines line hline).newline_notMem
      · rw [List.map_map]
        exact congrArg _ (List.map_congr_left fun line hline => congrArg (·.1) (hlines line hline).cleanLine_eq)
      · intro index line hline
        rw [hclean, List.getElem?_map, hline]
        rfl

theorem cleanLine_closing {closing : List Char} (hclosing : ∀ c ∈ closing, isInlineBlank c = true) :
    cleanLine closing = ([], 1) := by
  have htake : closing.takeWhile isInlineBlank = closing := List.takeWhile_eq_self_iff.mpr hclosing
  have hwidth : decorationWidth closing = 0 := by
    rw [decorationWidth, htake, List.drop_length]
  have htrim : trimEnd closing = [] := by
    rw [trimEnd, dropEndWhile, List.dropWhile_eq_nil_iff.mpr, List.reverse_nil]
    exact fun c hc => isBlank_of_isInlineBlank (hclosing c (List.mem_reverse.mp hc))
  rw [cleanLine, hwidth, List.drop_zero, htrim]
  rfl

/-- Cleaning undoes decorating. -/
theorem cleanLines_decoratedInner {lines : List CommentLine} {closing : List Char}
    (hlines : ∀ line ∈ lines, line.Plain) (hclosing : ∀ c ∈ closing, isInlineBlank c = true)
    (firstColumn : Nat) :
    ['\n'].intercalate ((cleanLines firstColumn (decoratedInner lines closing)).map (·.1)) =
        undecorated lines ∧
      ∀ (index : Nat) (line : CommentLine), lines[index]? = some line →
        ((cleanLines firstColumn (decoratedInner lines closing)).map (·.2))[index + 1]? =
          some ((line.indent.length + 3 : Nat) : Int) := by
  obtain ⟨rows, hne, hbody, hnewline, hcontent, hcolumns⟩ := exists_rows hlines
  have hinner : decoratedInner lines closing = ['\n'].intercalate ([] :: (rows ++ [closing])) := by
    rw [List.intercalate_cons_of_ne_nil (by simp), intercalate_concat hne, hbody]
    rfl
  have hsplit : (decoratedInner lines closing).splitOn '\n' = [] :: (rows ++ [closing]) := by
    rw [hinner]
    refine List.splitOn_intercalate '\n' ?_ (List.cons_ne_nil _ _)
    simp only [List.forall_mem_cons, List.forall_mem_append]
    exact ⟨List.not_mem_nil, hnewline, notMem_of_isInlineBlank '\n' hclosing rfl,
      List.forall_mem_nil _⟩
  have hclean : cleanLines firstColumn (decoratedInner lines closing) =
      ([], (firstColumn : Int)) :: (rows.map cleanLine ++ [([], 1)]) := by
    simp only [cleanLines, hsplit, List.map_append, List.map_singleton, cleanLine_closing hclosing]
    rfl
  rw [hclean]
  refine ⟨?_, fun index line hline => ?_⟩
  · rw [List.map_cons, List.map_append, List.map_map, List.map_singleton,
      List.intercalate_cons_of_ne_nil (by simp), intercalate_concat (by simpa using hne)]
    exact congrArg (fun body => '\n' :: (body ++ ['\n'])) hcontent
  · have hrow := hcolumns index line hline
    have hshort : index < (rows.map cleanLine).length := (List.getElem?_eq_some_iff.mp hrow).1
    rw [List.map_cons, List.getElem?_cons_succ, List.getElem?_map, List.getElem?_append_left hshort, hrow]
    rfl

theorem isInner_decoratedInner {lines : List CommentLine} {closing : List Char}
    (hlines : ∀ line ∈ lines, line.Plain) (hclosing : ∀ c ∈ closing, isInlineBlank c = true) :
    IsInner (decoratedInner lines closing) where
  ne_nil := List.cons_ne_nil _ _
  star := by simp [decoratedInner]
  slash := by simp [decoratedInner]
  closed := by
    have hbody : ¬ ['*', '/'] <:+: ['\n'].intercalate (lines.map CommentLine.decorated) := by
      refine not_infix_intercalate (by decide) (by decide) fun row hrow => ?_
      obtain ⟨line, hline, rfl⟩ := List.mem_map.mp hrow
      exact (hlines line hline).not_closed
    have hbehind : ¬ ['*', '/'] <:+: closing := fun hmark =>
      notMem_of_isInlineBlank '*' hclosing rfl (hmark.subset (by simp))
    intro hmark
    rcases infix_append_cons [] (by decide) hmark with hfront | hlater
    · simp at hfront
    · exact (infix_append_cons _ (by decide) hlater).elim hbody hbehind

namespace Annotation

mutual

theorem Value.unplaced_eq_self : (value : Value) → value.Tags (fun _ => False) → value.unplaced = value
  | .leaf _ _, _ => rfl
  | .array items, h => by rw [Value.unplaced, Value.unplacedItems_eq_self items h]
  | .mapping entries, h => by rw [Value.unplaced, Value.unplacedEntries_eq_self entries h]
  | .tag _, h => (Node.Tags.self h).elim

theorem Value.unplacedItems_eq_self : (items : List Value) → Value.AllTags (fun _ => False) items →
    Value.unplacedItems items = items
  | [], _ => rfl
  | item :: rest, h => by
      rw [Value.unplacedItems, Value.unplaced_eq_self item h.1, Value.unplacedItems_eq_self rest h.2]

theorem Value.unplacedEntries_eq_self : (entries : List (Datum × Value)) →
    Value.EntryTags (fun _ => False) entries → Value.unplacedEntries entries = entries
  | [], _ => rfl
  | (_, item) :: rest, h => by
      rw [Value.unplacedEntries, Value.unplaced_eq_self item h.1, Value.unplacedEntries_eq_self rest h.2]

end

theorem Reader.wordValue_unplaced (constants : Constants) (word : String) :
    wordValue constants word = (wordValue constants word).map Value.unplaced := by
  simp only [wordValue]
  split_ifs
  · rfl
  · rfl
  · rfl
  · cases constants.get? word with
    | none => rfl
    | some datum =>
        dsimp only
        cases hvalue : Value.ofDatum datum with
        | error => rfl
        | ok value =>
            exact congrArg Except.ok (Value.unplaced_eq_self value (Value.tags_of_ofDatum datum hvalue)).symm

/-- What readers know without the places of offsets. -/
def Setting.unplaced (setting : Setting) : Setting :=
  { setting with place := fun _ => { path := "" } }

theorem recast_unplaced (setting : Setting) :
    Recast setting.unplaced setting Value.unplaced Node.unplaced where
  string _ := rfl
  number _ := rfl
  word := Reader.wordValue_unplaced setting.constants
  array items := by rw [Value.unplaced, Value.unplacedItems_eq_map]
  mapping entries := by rw [Value.unplaced, Value.unplacedEntries_eq_map]
  tag _ := rfl
  node tag attributes children offset := by
    rw [Node.unplaced, Value.unplacedEntries_eq_map, Node.unplacedNodes_eq_map]
    rfl

/-- What is read of a text, without places. -/
def unplacedResult (found : List Node × List ParseError) : List Node × List Issue :=
  (found.1.map Node.unplaced, found.2.map (·.issue))

/-- The annotations of a text and its faults do not hang on where it stands, but for their places. -/
theorem parseText_unplaced (constants : Constants) (place : Nat → Location) (text : List Char) :
    (parseText constants place text).map unplacedResult =
      (readLines (Setting.unplaced ⟨constants, place⟩) {} (lineStarts 0 text)).map
        fun found => (found.1, found.2.map (·.1)) := by
  rw [(recast_unplaced ⟨constants, place⟩).readLines, parseText]
  cases readLines ⟨constants, place⟩ {} (lineStarts 0 text) with
  | error number => rfl
  | ok found =>
      change Except.ok (_, (found.2.map _).map _) = Except.ok (_, found.2.map _)
      rw [List.map_map]
      rfl

/-- Decorated lines are the lines of the text of their block, each with the column behind its decoration,
and what is read from the comment is what is read from the lines alone, but for the places. -/
theorem extractBlocks_decorate (identity : String) (detector : Option Detector)
    {before closing : List Char} (after : List Char) {lines : List CommentLine}
    (hbefore : ¬ OpensDocIn before []) (hlines : ∀ line ∈ lines, line.Plain)
    (hclosing : ∀ c ∈ closing, isInlineBlank c = true) :
    ∃ block rest,
      (extractBlocks identity (before ++ (decorate lines closing ++ after)) detector).1 = block :: rest ∧
      block.text.toList = undecorated lines ∧
      (∀ (index : Nat) (line : CommentLine), lines[index]? = some line →
        block.lineColumns[index + 1]? = some ((line.indent.length + 3 : Nat) : Int)) ∧
      ∀ constants, (parse constants block).map unplacedResult =
        (parseText constants (fun _ => { path := "" }) (undecorated lines)).map unplacedResult := by
  have htext : before ++ (decorate lines closing ++ after) =
      before ++ '/' :: '*' :: '*' :: (decoratedInner lines closing ++ '*' :: '/' :: after) := by
    simp [decorate]
  have hinner := isInner_decoratedInner hlines hclosing
  have hclean := cleanLines_decoratedInner hlines hclosing
  rw [htext, extractBlocks, docCommentsFrom_gap 0 (mt OpensDocIn.of_mark hbefore),
    docCommentsFrom_comment _ hinner]
  refine ⟨_, _, rfl, ?_, fun index line hline => (hclean _).2 index line hline, fun constants => ?_⟩
  · simp only [DocComment.block, String.toList_ofList, (hclean _).1]
  · simp only [parse, DocComment.block, String.toList_ofList, (hclean _).1, parseText_unplaced]
    rfl

/-- A comment of two lines with different indentations, behind code and in front of more. -/
theorem extractBlocks_decorate_get :
    let before := "<?php\n/* code */ ".toList
    let after := "\nfunction get() \x7b\x7d".toList
    let closing := "\t".toList
    let lines : List CommentLine := [⟨"  ".toList, "@Get(".toList⟩, ⟨[], "  path=\"/\")".toList⟩]
    (¬ OpensDocIn before [] ∧ (∀ line ∈ lines, line.Plain) ∧ ∀ c ∈ closing, isInlineBlank c = true) ∧
      ∃ block rest, (extractBlocks "a.php" (before ++ (decorate lines closing ++ after)) none).1 = block :: rest ∧
        block.text = "\n@Get(\n  path=\"/\")\n" ∧
        block.lineColumns[1]? = some 5 ∧ block.lineColumns[2]? = some 3 := by
  intro before after closing lines
  have hbefore : ¬ OpensDocIn before [] := by decide +kernel
  have hlines : ∀ line ∈ lines, line.Plain := by
    simp only [lines, List.forall_mem_cons]
    exact ⟨⟨List.all_eq_true.mp rfl, by decide, by decide +kernel, by decide +kernel⟩,
      ⟨List.forall_mem_nil _, by decide, by decide +kernel, by decide +kernel⟩, List.forall_mem_nil _⟩
  have hclosing : ∀ c ∈ closing, isInlineBlank c = true := List.all_eq_true.mp rfl
  obtain ⟨block, rest, hblocks, htext, hcolumns, -⟩ :=
    extractBlocks_decorate "a.php" none after hbefore hlines hclosing
  refine ⟨⟨hbefore, hlines, hclosing⟩, block, rest, hblocks, ?_, hcolumns 0 _ rfl, hcolumns 1 _ rfl⟩
  rw [← String.toList_inj, htext]
  rfl

end Annotation

end DocCompiler
