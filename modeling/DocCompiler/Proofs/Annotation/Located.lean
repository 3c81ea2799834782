import DocCompiler.Annotation.Parse
import DocCompiler.Proofs.Annotation.Position

/-!
The annotations of a doc comment stand in their source where they say. They are found line by line, so
those that are not nested come in the order of their places.
-/

namespace DocCompiler.Annotation

open Text

section Lines

variable {setting : Setting} {text : List Char}

/-- The lines of a text stand in it. -/
theorem behindBreaks_within {offset : Nat} {rest : List Char} {line : Cursor}
    (h : line ∈ lineStarts.behindBreaks offset rest) :
    ∃ before, rest = before ++ '\n' :: line.rest ∧ line.offset = offset + before.length + 1 := by
  induction rest generalizing offset with
  | nil => simp [lineStarts.behindBreaks] at h
  | cons c rest ih =>
      have hlater (h : line ∈ lineStarts.behindBreaks (offset + 1) rest) :
          ∃ before, c :: rest = before ++ '\n' :: line.rest ∧ line.offset = offset + before.length + 1 := by
        obtain ⟨before, hrest, hoffset⟩ := ih h
        refine ⟨c :: before, by rw [hrest, List.cons_append], ?_⟩
        rw [hoffset, List.length_cons]
        omega
      rw [lineStarts.behindBreaks] at h
      split_ifs at h with hc
      · obtain rfl | h := List.mem_cons.mp h
        · exact ⟨[], by simpa using hc, rfl⟩
        · exact hlater h
      · exact hlater h

/-- Where the tag that a line starts with stands. -/
theorem candidate?_spec {line : Cursor} {candidate : Candidate} (h : candidate? line = some candidate) :
    ∃ blanks rest, (∀ c ∈ blanks, isInlineBlank c = true) ∧ line.rest = blanks ++ '@' :: rest ∧
      candidate.start = ⟨line.offset + blanks.length, '@' :: rest⟩ ∧ candidate.name = tagName rest ∧
        tagName rest ≠ [] := by
  simp only [candidate?, Option.ite_none_right_eq_some, Bool.and_eq_true, beq_iff_eq,
    Option.some.injEq] at h
  obtain ⟨⟨hpeek, hname⟩, rfl⟩ := h
  have hparts := (List.takeWhile_append_dropWhile (p := isInlineBlank) (l := line.rest)).symm
  have hstart : line.skipInlineBlanks =
      ⟨line.offset + (line.rest.takeWhile isInlineBlank).length, line.rest.dropWhile isInlineBlank⟩ := by
    have hrest := Cursor.skipWhile_rest line isInlineBlank
    rw [Cursor.skipInlineBlanks, ← hrest]
    rfl
  rw [hstart] at hpeek hname ⊢
  obtain ⟨rest, hrest⟩ : ∃ rest, line.rest.dropWhile isInlineBlank = '@' :: rest :=
    List.head?_eq_some_iff.mp hpeek
  simp only [hrest, List.drop_succ_cons, List.drop_zero] at hparts hname ⊢
  exact ⟨_, rest, fun c hc => List.all_eq_true.mp List.all_takeWhile c hc, hparts, rfl, rfl, by simpa using hname⟩

/-- The tag that a line starts with stands in the text of the line. -/
theorem candidate?_within {line : Cursor} {candidate : Candidate} (h : candidate? line = some candidate)
    (hline : line.Within text) : candidate.start.Within text := by
  obtain ⟨blanks, rest, -, hrest, hstart, -⟩ := candidate?_spec h
  have hadvance := hline.advance blanks.length
  rwa [Cursor.advance, hrest, List.drop_left, ← hstart] at hadvance

/-- The tag that a line starts with stands before all later lines. -/
def Ahead (line later : Cursor) : Prop :=
  ∀ candidate, candidate? line = some candidate → candidate.start.offset < later.offset

theorem ahead_of_mem {line later : Cursor} (h : later ∈ lineStarts.behindBreaks line.offset line.rest) :
    Ahead line later := by
  intro candidate hcandidate
  obtain ⟨before, hbefore, hoffset⟩ := behindBreaks_within h
  obtain ⟨blanks, rest, hblanks, hrest, hstart, -⟩ := candidate?_spec hcandidate
  rw [hstart, hoffset]
  -- The blanks in front of the tag hold no line break.
  have hle : blanks.length ≤ before.length := by
    by_contra hlt
    have hget := congrArg (·[before.length]?) (hbefore.symm.trans hrest)
    simp only [List.getElem?_append_right (Nat.le_refl _), Nat.sub_self, List.getElem?_cons_zero] at hget
    rw [List.getElem?_append_left (Nat.not_le.mp hlt)] at hget
    exact absurd (hblanks _ (List.mem_of_getElem? hget.symm)) (by decide)
  change line.offset + blanks.length < _
  omega

theorem pairwise_behindBreaks (offset : Nat) (rest : List Char) :
    (lineStarts.behindBreaks offset rest).Pairwise Ahead := by
  induction rest generalizing offset with
  | nil => exact .nil
  | cons c rest ih =>
      rw [lineStarts.behindBreaks]
      split_ifs
      · exact .cons (fun later hlater => ahead_of_mem hlater) (ih _)
      · exact ih _

theorem lineStarts_eq (offset : Nat) (text : List Char) :
    lineStarts offset text = ⟨offset, text⟩ :: lineStarts.behindBreaks offset text := by
  cases text <;> rfl

theorem pairwise_lineStarts (text : List Char) : (lineStarts 0 text).Pairwise Ahead := by
  rw [lineStarts_eq]
  exact .cons (fun later hlater => ahead_of_mem hlater) (pairwise_behindBreaks _ _)

theorem within_of_mem_lineStarts {line : Cursor} (h : line ∈ lineStarts 0 text) : line.Within text := by
  rw [lineStarts_eq] at h
  obtain rfl | h := List.mem_cons.mp h
  · rfl
  · obtain ⟨before, htext, hoffset⟩ := behindBreaks_within h
    have hdrop : (before ++ ['\n'] ++ line.rest).drop (before ++ ['\n']).length = line.rest :=
      List.drop_left
    rw [List.length_append, List.length_singleton, ← List.append_cons, ← htext] at hdrop
    rw [Cursor.Within, hoffset, Nat.zero_add, hdrop]

/-- Where the annotation of a candidate comes from: its tag is read without faults, or has no
arguments. -/
theorem node_of_readCandidate {candidate : Candidate} {outcome : Outcome} {node : Node}
    (h : readCandidate setting candidate = .ok outcome) (hnode : outcome.node = some node) :
    isTopLevelTag (baseName candidate.name) = true ∧
      ((∃ later, (Reader.topTag setting).run { cursor := candidate.start } = .ok (node, later) ∧
          later.problems = []) ∨
        node = ⟨.text (baseName candidate.name), [], [],
          (setting.place candidate.start.offset).line.getD 0,
          (setting.place candidate.start.offset).column.getD 0⟩) := by
  rw [readCandidate] at h
  split_ifs at h
  · rw [readTag] at h
    split at h
    · cases h
    · obtain rfl := Except.ok.inj h
      cases hnode
    · rename_i found later hrun
      obtain rfl := Except.ok.inj h
      obtain ⟨hissues, hfound⟩ := Option.ite_none_right_eq_some.mp hnode
      obtain rfl := Option.some.inj hfound
      rw [List.isEmpty_iff] at hissues
      split_ifs at hissues with hknown hnested
      simp only [Bool.not_eq_true', Bool.not_eq_false] at hknown hnested
      exact ⟨by simp [isTopLevelTag, hknown, hnested], .inl ⟨later, hrun, hissues⟩⟩
  · obtain rfl := Except.ok.inj h
    rw [readBare] at hnode
    split_ifs at hnode with htop
    exact ⟨htop, .inr (Option.some.inj hnode).symm⟩

/-- What holds of the annotation of each candidate holds of the annotations of lines. -/
theorem forall_of_readLines {p : Node → Prop} {lines : List Cursor}
    (hp : ∀ line ∈ lines, ∀ candidate outcome node, candidate? line = some candidate →
      readCandidate setting candidate = .ok outcome → outcome.node = some node → p node)
    {resume : Resume} {nodes : List Node} {issues : List (Issue × Nat)}
    (h : readLines setting resume lines = .ok (nodes, issues)) : ∀ node ∈ nodes, p node := by
  induction lines generalizing resume nodes issues with
  | nil =>
      obtain ⟨rfl, -⟩ := Prod.mk.inj (Except.ok.inj h)
      exact List.forall_mem_nil _
  | cons line rest ih =>
      rw [List.forall_mem_cons] at hp
      rw [readLines] at h
      split at h
      · exact ih hp.2 h
      · rename_i candidate hfilter
        obtain ⟨outcome, houtcome, h⟩ := Result.bind_eq_ok_iff.mp h
        obtain ⟨⟨laterNodes, laterIssues⟩, hbehind, h⟩ := Result.bind_eq_ok_iff.mp h
        obtain ⟨rfl, rfl⟩ := Prod.mk.inj (Except.ok.inj h)
        obtain ⟨hcandidate, -⟩ := Option.filter_eq_some_iff.mp hfilter
        refine List.forall_mem_append.mpr ⟨fun node hnode => ?_, ih hp.2 hbehind⟩
        exact hp.1 candidate outcome node hcandidate houtcome (Option.mem_toList.mp hnode)

/-- The annotation of a candidate stands where the candidate starts. -/
theorem readCandidate_placed {line : Cursor} {candidate : Candidate} {outcome : Outcome} {node : Node}
    (hcandidate : candidate? line = some candidate) (hline : line.Within text)
    (h : readCandidate setting candidate = .ok outcome) (hnode : outcome.node = some node) :
    node.PlacedAt text setting.place candidate.start.offset := by
  obtain ⟨blanks, rest, -, -, hstart, hname, hne⟩ := candidate?_spec hcandidate
  have hwithin := candidate?_within hcandidate hline
  obtain ⟨-, ⟨later, hrun, -⟩ | rfl⟩ := node_of_readCandidate h hnode
  · have hpeek : candidate.start.peek? = some '@' := by rw [hstart]; rfl
    have hgives := @Reader.tag_gives setting text _ { cursor := candidate.start }
      (Reader.levels_marks setting text (maxNesting - 1)) false hwithin hpeek
    exact (hgives node later hrun).1
  · have hoffset : text.drop candidate.start.offset = '@' :: rest := by rw [← hwithin, hstart]
    have hplaced := @Reader.Arguments.Marked.placedAt _ setting.place _ _ {} ⟨trivial, trivial⟩ hoffset hne
    rwa [← hname] at hplaced

/-- The annotations of lines stand at increasing offsets. -/
theorem readLines_placed {lines : List Cursor} {resume : Resume} {nodes : List Node}
    {issues : List (Issue × Nat)} (hlines : ∀ line ∈ lines, line.Within text)
    (hahead : lines.Pairwise Ahead) (h : readLines setting resume lines = .ok (nodes, issues)) :
    ∃ offsets : List Nat, List.Forall₂ (Node.PlacedAt text setting.place) offsets nodes ∧
      offsets.Pairwise (· < ·) ∧
        ∀ offset ∈ offsets, ∃ line ∈ lines, ∃ candidate, candidate? line = some candidate ∧
          candidate.start.offset = offset := by
  induction lines generalizing resume nodes issues with
  | nil =>
      obtain ⟨rfl, -⟩ := Prod.mk.inj (Except.ok.inj h)
      exact ⟨[], .nil, .nil, by simp⟩
  | cons line rest ih =>
      rw [List.forall_mem_cons] at hlines
      rw [List.pairwise_cons] at hahead
      rw [readLines] at h
      split at h
      · obtain ⟨offsets, hplaced, hincreasing, hfrom⟩ := ih hlines.2 hahead.2 h
        refine ⟨offsets, hplaced, hincreasing, fun offset hoffset => ?_⟩
        obtain ⟨later, hlater, hcandidate⟩ := hfrom offset hoffset
        exact ⟨later, List.mem_cons_of_mem _ hlater, hcandidate⟩
      · rename_i candidate hfilter
        obtain ⟨outcome, houtcome, h⟩ := Result.bind_eq_ok_iff.mp h
        obtain ⟨⟨laterNodes, laterIssues⟩, hbehind, h⟩ := Result.bind_eq_ok_iff.mp h
        obtain ⟨rfl, rfl⟩ := Prod.mk.inj (Except.ok.inj h)
        obtain ⟨hcandidate, -⟩ := Option.filter_eq_some_iff.mp hfilter
        obtain ⟨offsets, hplaced, hincreasing, hfrom⟩ := ih hlines.2 hahead.2 hbehind
        have hlaterFrom : ∀ offset ∈ offsets, ∃ other ∈ line :: rest, ∃ candidate,
            candidate? other = some candidate ∧ candidate.start.offset = offset := by
          intro offset hoffset
          obtain ⟨later, hlater, hcandidate⟩ := hfrom offset hoffset
          exact ⟨later, List.mem_cons_of_mem _ hlater, hcandidate⟩
        cases hnode : outcome.node with
        | none => exact ⟨offsets, hplaced, hincreasing, hlaterFrom⟩
        | some node =>
            refine ⟨candidate.start.offset :: offsets, ?_, ?_, ?_⟩
            · exact .cons (readCandidate_placed hcandidate hlines.1 houtcome hnode) hplaced
            · refine .cons (fun offset hoffset => ?_) hincreasing
              -- A later tag starts on a later line.
              obtain ⟨later, hlater, other, hother, rfl⟩ := hfrom offset hoffset
              obtain ⟨blanks, more, -, -, hstart, -⟩ := candidate?_spec hother
              have hlt := hahead.1 later hlater candidate hcandidate
              rw [hstart]
              exact Nat.lt_add_right _ hlt
            · rw [List.forall_mem_cons]
              exact ⟨⟨line, List.mem_cons_self, candidate, hcandidate, rfl⟩, hlaterFrom⟩

end Lines

/-- The mark and the name of a tag stand in a source at the line and the column of the tag. -/
def Node.StandsIn (source : List Char) (node : Node) : Prop :=
  ∃ (line column : Nat) (base name : List Char), 0 < line ∧ 0 < column ∧ node.line = line ∧
    node.column = column ∧ node.tag = .text (String.ofList base) ∧ IsTagName base name ∧
      '@' :: name <+: lineFrom source line column

/-- One annotation stands before another one in their source. -/
def Node.Precedes (node later : Node) : Prop :=
  node.line < later.line ∨ node.line = later.line ∧ node.column < later.column

section Block

variable {identity : String} {source : List Char} {detector : Option Detector} {block : Block}

theorem isBlank_of_mem_tagName {base name : List Char} (h : IsTagName base name) {c : Char}
    (hc : c ∈ name) : isBlank c = false := by
  have hword {name : List Char} (hname : IsName name) (hc : c ∈ name) : isBlank c = false := by
    rw [← Bool.not_eq_true]
    exact fun hblank => absurd (hname.isWord c hc) (by rw [isWord_of_isBlank hblank]; decide)
  induction h with
  | base hname => exact hword hname hc
  | within hspace _ ih =>
      obtain hc | hc := List.mem_append.mp hc
      · exact hword hspace hc
      · obtain rfl | hc := List.mem_cons.mp hc
        · decide
        · exact ih hc

theorem newline_notMem_of_isTagName {base name : List Char} (h : IsTagName base name) : '\n' ∉ name :=
  fun hmem => absurd (isBlank_of_mem_tagName h hmem) (by decide)

/-- A tag that stands in the text of a block stands in the source of the block. -/
theorem Node.Marked.standsIn (h : block ∈ (extractBlocks identity source detector).1) {node : Node}
    (hmarked : node.Marked block.text.toList block.location) : node.StandsIn source := by
  obtain ⟨offset, ⟨base, name, rest, htext, htag, hname⟩, hline, hcolumn⟩ := hmarked
  have hlength : (block.text.toList.take offset).length = offset := by
    rw [List.length_take, Nat.min_eq_left]
    by_contra hlt
    rw [List.drop_eq_nil_of_le (Nat.le_of_not_le hlt)] at htext
    exact absurd htext nofun
  have hparts : block.text.toList = block.text.toList.take offset ++ '@' :: (name ++ rest) := by
    rw [← htext, List.take_append_drop]
  obtain ⟨line, column, hpositive, hpositive', hlocation, hprefix⟩ := location_spec h hparts
  rw [hlength] at hlocation
  rw [hlocation] at hline hcolumn
  refine ⟨line, column, base, name, hpositive, hpositive', hline, hcolumn, htag, hname, ?_⟩
  have hfirst : '@' :: name <+: firstLine ('@' :: (name ++ rest)) := by
    have hchars : ∀ c ∈ '@' :: name, (c != '\n') = true := by
      rw [List.forall_mem_cons]
      refine ⟨by decide, fun c hc => ?_⟩
      rw [bne_iff_ne]
      rintro rfl
      exact newline_notMem_of_isTagName hname hc
    rw [firstLine, ← List.cons_append, List.takeWhile_append_of_pos hchars]
    exact List.prefix_append _ _
  exact hfirst.trans hprefix

theorem Node.PlacedAt.lt_length {text : List Char} {place : Nat → Location} {offset : Nat} {node : Node}
    (h : node.PlacedAt text place offset) : offset < text.length := by
  obtain ⟨⟨⟨base, name, rest, htext, -⟩, -, -⟩, -⟩ := h
  by_contra hle
  rw [List.drop_eq_nil_of_le (Nat.le_of_not_lt hle)] at htext
  exact absurd htext nofun

theorem Node.PlacedAt.precedes {offset other : Nat} {node later : Node}
    (h : node.PlacedAt block.text.toList block.location offset)
    (hlater : later.PlacedAt block.text.toList block.location other) (hlt : offset < other) :
    node.Precedes later := by
  obtain ⟨line, column, otherLine, otherColumn, hline, hcolumn, hother, hothers, hprecedes⟩ :=
    block.location_precedes hlt (Nat.le_of_lt hlater.lt_length)
  rw [Node.Precedes, h.1.line, h.1.column, hlater.1.line, hlater.1.column, hline, hcolumn, hother, hothers]
  exact hprecedes

theorem exists_of_mem_right {α β : Type} {r : α → β → Prop} {items : List α} {others : List β}
    (h : List.Forall₂ r items others) {other : β} (hother : other ∈ others) : ∃ item ∈ items, r item other := by
  obtain ⟨index, hindex, rfl⟩ := List.mem_iff_getElem.mp hother
  have hlt : index < items.length := h.length_eq ▸ hindex
  exact ⟨items[index], List.getElem_mem hlt, h.get hlt hindex⟩

theorem pairwise_precedes {offsets : List Nat} {nodes : List Node}
    (h : List.Forall₂ (Node.PlacedAt block.text.toList block.location) offsets nodes)
    (hincreasing : offsets.Pairwise (· < ·)) : nodes.Pairwise Node.Precedes := by
  induction h with
  | nil => exact .nil
  | cons hplaced hrest ih =>
      obtain ⟨hlt, hincreasing⟩ := List.pairwise_cons.mp hincreasing
      refine .cons (fun later hlater => ?_) (ih hincreasing)
      obtain ⟨other, hother, hplacedLater⟩ := exists_of_mem_right hrest hlater
      exact hplaced.precedes hplacedLater (hlt other hother)

/-- Positions are exact. Every character of the text of a block stands in its source at the place that
the block gives for it; every tag that is read from the block, nested ones included, stands there with its
mark and its name; those that are not nested come in the order of their places; and every fault lies on
a line of the block. -/
theorem parse_positions {constants : Constants} {nodes : List Node} {errors : List ParseError}
    (hblock : block ∈ (extractBlocks identity source detector).1)
    (hparse : parse constants block = .ok (nodes, errors)) :
    (∀ offset c, block.text.toList[offset]? = some c → c ≠ '\n' →
      ∃ line column : Nat, 0 < line ∧ 0 < column ∧
        block.location offset = ⟨identity, some line, some column⟩ ∧
          (lineFrom source line column).head? = some c) ∧
    (∀ node ∈ nodes, node.Tags (Node.StandsIn source)) ∧
    nodes.Pairwise Node.Precedes ∧
    ∀ error ∈ errors, ∃ line, error.location.line = some line ∧
      block.startLine ≤ line ∧ line ≤ block.endLine := by
  refine ⟨fun offset c hc hnewline => ?_, ?_⟩
  · have hparts : block.text.toList = block.text.toList.take offset ++ c :: block.text.toList.drop (offset + 1) := by
      obtain ⟨hlt, rfl⟩ := List.getElem?_eq_some_iff.mp hc
      rw [List.getElem_cons_drop, List.take_append_drop]
    obtain ⟨line, column, hpositive, hpositive', hlocation, more, hmore⟩ := location_spec hblock hparts
    have hlength : (block.text.toList.take offset).length = offset := by
      rw [List.length_take, Nat.min_eq_left (Nat.le_of_lt (List.getElem?_eq_some_iff.mp hc).1)]
    rw [hlength] at hlocation
    refine ⟨line, column, hpositive, hpositive', hlocation, ?_⟩
    have hkeep : (c != '\n') = true := by simpa using hnewline
    rw [← hmore, firstLine, List.takeWhile_cons, if_pos hkeep]
    rfl
  · obtain ⟨⟨found, issues⟩, hlines, hrest⟩ := Result.bind_eq_ok_iff.mp hparse
    obtain ⟨rfl, rfl⟩ := Prod.mk.inj (Except.ok.inj hrest)
    obtain ⟨offsets, hplaced, hincreasing, -⟩ := readLines_placed
      (fun line => within_of_mem_lineStarts) (pairwise_lineStarts block.text.toList) hlines
    refine ⟨fun node hnode => ?_, pairwise_precedes hplaced hincreasing, fun error herror => ?_⟩
    · obtain ⟨offset, -, hnodePlaced⟩ := exists_of_mem_right hplaced hnode
      exact Node.Tags.imp (fun _ hmarked => hmarked.standsIn hblock) node hnodePlaced.2
    · obtain ⟨⟨issue, offset⟩, -, rfl⟩ := List.mem_map.mp herror
      have hle := startLine_add_count_le hblock offset
      exact ⟨_, rfl, Int.le_add_of_nonneg_right (Int.natCast_nonneg _), hle⟩

end Block

/-- The general theorem for a doc comment with one annotation in another one. -/
theorem parse_positions_get :
    let source := "<?php\n/**\n * @Get(path=\"/a\",\n *   @Response(response=200))\n */".toList
    let block : Block :=
      { source := "a.php", symbol := .ofFile "a.php", startLine := 2, startColumn := 1, endLine := 5
        text := "\n@Get(path=\"/a\",\n  @Response(response=200))\n", lineColumns := [4, 4, 4, 1] }
    block ∈ (extractBlocks "a.php" source none).1 ∧
      ∃ node, parse [] block = .ok ([node], []) ∧ node.Tags (Node.StandsIn source) := by
  intro source block
  have hblock : block ∈ (extractBlocks "a.php" source none).1 := by
    rw [show (extractBlocks "a.php" source none).1 = [block] from rfl]
    exact List.mem_singleton_self _
  have hone : (match parse [] block with
      | .ok (nodes, errors) => nodes.length == 1 && errors.isEmpty
      | .error _ => false) = true := by
    decide +kernel
  obtain ⟨node, hparse⟩ : ∃ node, parse [] block = .ok ([node], []) := by
    split at hone
    · rename_i nodes errors hparse
      rw [Bool.and_eq_true, beq_iff_eq, List.length_eq_one_iff, List.isEmpty_iff] at hone
      obtain ⟨⟨node, rfl⟩, rfl⟩ := hone
      exact ⟨node, hparse⟩
    · exact absurd hone (by decide)
  obtain ⟨-, htags, -, -⟩ := parse_positions hblock hparse
  exact ⟨hblock, node, hparse, htags node (List.mem_singleton_self _)⟩

end DocCompiler.Annotation
