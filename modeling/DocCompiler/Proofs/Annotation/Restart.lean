import DocCompiler.Proofs.Annotation.Lines
import DocCompiler.Proofs.Annotation.Shift

/-!
Where reading of a doc comment goes on behind a tag. Behind a tag that fails, and behind one that is
read to its end, all that is found is what parsing of the rest of the text finds on its own.
-/

namespace DocCompiler.Annotation

open Text

/-- A cursor stands right behind a character of a text. -/
def Cursor.Behind (text : List Char) (c : Char) (cursor : Cursor) : Prop :=
  ∃ before : Cursor, before.Within text ∧ before.peek? = some c ∧ cursor = before.advance 1

theorem Cursor.Behind.exists_part {text : List Char} {c : Char} {cursor : Cursor}
    (h : cursor.Behind text c) :
    ∃ part, text = part ++ c :: cursor.rest ∧ cursor.offset = part.length + 1 := by
  obtain ⟨⟨offset, rest⟩, hwithin, hpeek, rfl⟩ := h
  obtain ⟨more, hmore⟩ := List.head?_eq_some_iff.mp hpeek
  dsimp only at hmore
  subst hmore
  have hlength : (text.take offset).length = offset := by
    rw [List.length_take, Nat.min_eq_left]
    by_contra hlt
    rw [Cursor.Within, List.drop_eq_nil_of_le (Nat.le_of_not_le hlt)] at hwithin
    cases hwithin
  refine ⟨text.take offset, ?_, by rw [hlength]; rfl⟩
  change text = text.take offset ++ c :: more
  rw [show c :: more = text.drop offset from hwithin, List.take_append_drop]

namespace Reader

section Closes

variable {σ : Type} {text : List Char} {close : Char} {unclosed : Reader σ} {endExpected : Char → Issue}
  {item : σ → Reader σ} {post : σ → Prop} {state later : ReadState} {found : σ}
  (hunclosed : ∀ state found later, unclosed.run state ≠ .ok (found, later))
  (hitem : ∀ done, post done → ∀ state : ReadState, state.cursor.Within text →
    Gives text post ((item done).run state))

include hunclosed hitem

/-- Reading of a list ends right behind its closing character. -/
theorem items_behind {fuel : Nat} {done : σ} (hdone : post done) (h : state.cursor.Within text)
    (hrun : (items close unclosed endExpected item fuel done).run state = .ok (found, later)) :
    later.cursor.Behind text close := by
  induction fuel generalizing done state with
  | zero => exact absurd hrun (hunclosed _ _ _)
  | succ fuel ih =>
      rw [items, StateT.run_bind] at hrun
      obtain ⟨⟨first, mid⟩, hfirst, hrun⟩ := Result.bind_eq_ok_iff.mp hrun
      obtain ⟨hpost, hmid⟩ := hitem done hdone state h first mid hfirst
      rw [run_skipBlanks_bind, run_cursor_bind] at hrun
      split at hrun
      · exact absurd hrun (hunclosed _ _ _)
      · next c hpeek =>
        split_ifs at hrun with hcomma hclose
        · rw [run_advance_bind, run_skipBlanks_bind, run_cursor_bind] at hrun
          have hbehind := (hmid.skipBlanks.advance 1).skipBlanks
          split_ifs at hrun with hend
          · obtain ⟨-, rfl⟩ := Prod.mk.inj (Except.ok.inj hrun)
            exact ⟨_, hbehind, by simpa using hend, rfl⟩
          · exact ih hpost hbehind hrun
        · obtain ⟨-, rfl⟩ := Prod.mk.inj (Except.ok.inj hrun)
          obtain rfl : c = close := by simpa using hclose
          exact ⟨_, hmid.skipBlanks, hpeek, rfl⟩
        · cases hrun

theorem list_behind {empty : σ} (hempty : post empty) (h : state.cursor.Within text)
    (hrun : (list close unclosed endExpected item empty).run state = .ok (found, later)) :
    later.cursor.Behind text close := by
  rw [list, run_advance_bind, run_skipBlanks_bind, run_cursor_bind] at hrun
  have hbehind := (h.advance 1).skipBlanks
  split_ifs at hrun with hend
  · obtain ⟨-, rfl⟩ := Prod.mk.inj (Except.ok.inj hrun)
    exact ⟨_, hbehind, by simpa using hend, rfl⟩
  · exact items_behind hunclosed hitem hempty hbehind hrun

end Closes

/-- Reading of a tag with arguments ends right behind their closing parenthesis. -/
theorem topTag_behind {setting : Setting} {text : List Char} {state later : ReadState} {node : Node}
    (h : state.cursor.Within text)
    (hopening : (state.cursor.advance
      ((tagName (state.cursor.rest.drop 1)).length + 1)).skipInlineBlanks.peek? = some '(')
    (hrun : (topTag setting).run state = .ok (node, later)) : later.cursor.Behind text ')' := by
  rw [topTag, tag, run_cursor_bind] at hrun
  simp only [Bool.false_and, Bool.false_eq_true, if_false] at hrun
  split_ifs at hrun
  · cases hrun
  · rw [run_advance_bind, run_cursor_bind, if_pos (by simpa using hopening), run_moveTo_bind,
      StateT.run_bind] at hrun
    obtain ⟨⟨arguments, last⟩, hlist, hlast⟩ := Result.bind_eq_ok_iff.mp hrun
    obtain ⟨-, rfl⟩ := Prod.mk.inj (Except.ok.inj hlast)
    have hempty : Arguments.Marked text setting.place {} := ⟨trivial, trivial⟩
    exact list_behind (fun _ _ _ hfail => by cases hfail)
      (fun _ hdone _ h => argument_gives (levels_marks setting text _) hdone h) hempty
      (h.advance _).skipInlineBlanks hlist

end Reader

/-- A line that starts with a tag, no deeper than an indentation. -/
def Cursor.startsTag (indent : Nat) (line : Cursor) : Bool :=
  (candidate? line).any (·.indent ≤ indent)

section Candidate

variable (setting : Setting) (candidate : Candidate)

/-- A candidate is followed by a list of arguments. -/
def Candidate.HasArguments : Prop :=
  (candidate.start.advance (candidate.name.length + 1)).skipInlineBlanks.peek? = some '('

instance : Decidable candidate.HasArguments :=
  inferInstanceAs (Decidable (_ = _))

/-- The structure of the tag of a candidate has a fault. -/
def Candidate.FailsWith (fault : Issue) (offset : Nat) : Prop :=
  candidate.HasArguments ∧
    (Reader.topTag setting).run { cursor := candidate.start } = .error (.issue fault offset)

/-- The tag of a candidate is read to its end, or it has no arguments and ends behind its name. -/
def Candidate.EndsAt (finish : Cursor) : Prop :=
  (candidate.HasArguments ∧ ∃ node problems,
    (Reader.topTag setting).run { cursor := candidate.start } = .ok (node, ⟨finish, problems⟩)) ∨
  (¬ candidate.HasArguments ∧ finish = candidate.start.advance (candidate.name.length + 1))

/-- Reading comes to a candidate, and gives annotations and faults before. -/
inductive Meets : Resume → List Cursor → List Node → List (Issue × Nat) → Candidate → Prop
  | here {resume line rest candidate} (h : (candidate? line).filter resume.admits = some candidate) :
      Meets resume (line :: rest) [] [] candidate
  | pass {resume line rest nodes issues candidate}
      (h : (candidate? line).filter resume.admits = none)
      (hrest : Meets resume rest nodes issues candidate) :
      Meets resume (line :: rest) nodes issues candidate
  | read {resume line rest nodes issues candidate other outcome}
      (h : (candidate? line).filter resume.admits = some other)
      (houtcome : readCandidate setting other = .ok outcome)
      (hrest : Meets outcome.resume rest nodes issues candidate) :
      Meets resume (line :: rest) (outcome.node.toList ++ nodes) (outcome.issues ++ issues) candidate

end Candidate

section Lines

variable {setting : Setting} {resume : Resume} {lines : List Cursor} {nodes : List Node}
  {issues : List (Issue × Nat)} {candidate : Candidate}

theorem Meets.exists_line (h : Meets setting resume lines nodes issues candidate) :
    ∃ line ∈ lines, candidate? line = some candidate := by
  induction h with
  | here h => exact ⟨_, List.mem_cons_self, (Option.filter_eq_some_iff.mp h).1⟩
  | pass _ _ ih | read _ _ _ ih =>
      obtain ⟨line, hline, hcandidate⟩ := ih
      exact ⟨line, List.mem_cons_of_mem _ hline, hcandidate⟩

/-- Reading of lines gives what it gives before a candidate, what the candidate gives, and what the
lines behind the candidate give. -/
theorem Meets.readLines_eq (h : Meets setting resume lines nodes issues candidate)
    (hlines : Consecutive lines) :
    readLines setting resume lines = do
      let outcome ← readCandidate setting candidate
      let later ← readLines setting outcome.resume candidate.start.laterLines
      return (nodes ++ (outcome.node.toList ++ later.1), issues ++ (outcome.issues ++ later.2)) := by
  induction h with
  | @here resume line rest candidate h =>
      rw [readLines, h, hlines.1, candidate?_laterLines (Option.filter_eq_some_iff.mp h).1]
      rfl
  | pass h hrest ih =>
      rw [readLines, h]
      exact ih hlines.2
  | @read _ _ rest _ _ candidate other outcome h houtcome hrest ih =>
      rw [readLines, h]
      dsimp only
      rw [houtcome]
      change (readLines setting outcome.resume rest >>= _) = _
      rw [ih hlines.2]
      cases readCandidate setting candidate with
      | error number => rfl
      | ok next =>
          change ((readLines setting next.resume _ >>= _) >>= _) = (readLines setting next.resume _ >>= _)
          cases readLines setting next.resume candidate.start.laterLines with
          | error number => rfl
          | ok later => simp only [List.append_assoc]; rfl

/-- Lines that start no earlier than reading goes on are all read. -/
theorem readLines_of_le {offset : Nat} (h : ∀ line ∈ lines, offset ≤ line.offset) :
    readLines setting { offset } lines = readLines setting {} lines := by
  induction lines with
  | nil => rfl
  | cons line rest ih =>
      rw [List.forall_mem_cons] at h
      have hfilter : (candidate? line).filter (Resume.admits { offset }) =
          (candidate? line).filter (Resume.admits {}) := by
        cases hcandidate : candidate? line with
        | none => rfl
        | some candidate =>
            have hle := Nat.le_trans h.1 (candidate?_le hcandidate)
            simp [Option.filter_some, Resume.admits, hle]
      rw [readLines, readLines, hfilter, ih h.2]

/-- Lines whose tags are not to be read are passed. -/
theorem readLines_append {before : List Cursor}
    (h : ∀ line ∈ before, (candidate? line).filter resume.admits = none) :
    readLines setting resume (before ++ lines) = readLines setting resume lines := by
  induction before with
  | nil => rfl
  | cons line before ih =>
      rw [List.forall_mem_cons] at h
      rw [List.cons_append, readLines, h.1]
      exact ih h.2

/-- Behind a tag that ends in a character that is no blank, the lines that start in the tag are
passed. -/
theorem readLines_laterLines {start finish : Cursor} {body : List Char} {c : Char}
    (hrest : start.rest = body ++ c :: finish.rest)
    (hoffset : finish.offset = start.offset + body.length + 1) (hc : isBlank c = false) :
    readLines setting { offset := finish.offset } start.laterLines =
      readLines setting { offset := finish.offset } finish.laterLines := by
  have hlines : start.laterLines = (lineStarts.behindBreaks start.offset (body ++ [c])).map
      (fun line => ⟨line.offset, line.rest ++ finish.rest⟩) ++ finish.laterLines := by
    rw [Cursor.laterLines, hrest, List.append_cons, behindBreaks_append, List.length_append,
      List.length_singleton, ← Nat.add_assoc, ← hoffset]
    rfl
  rw [hlines]
  refine readLines_append fun line hline => ?_
  obtain ⟨part, hpart, rfl⟩ := List.mem_map.mp hline
  rw [Option.filter_eq_none_iff]
  intro candidate hcandidate hadmits
  obtain ⟨blanks, more, hblanks, hmore, hstart, -⟩ := candidate?_spec hcandidate
  obtain ⟨before, hbefore, hpartOffset⟩ := behindBreaks_within hpart
  -- The last character of the tag stands in the line, and is none of the blanks in front of its tag.
  have hmem : c ∈ part.rest := by
    have hlast : ('\n' :: part.rest).getLast? = some c := by
      have hlast := congrArg List.getLast? hbefore
      rwa [List.getLast?_append_of_ne_nil _ (List.cons_ne_nil _ _),
        List.getLast?_append_of_ne_nil _ (List.cons_ne_nil _ _), List.getLast?_singleton,
        eq_comm] at hlast
    obtain rfl | hmem := List.mem_cons.mp (List.mem_of_getLast? hlast)
    · exact absurd hc (by decide)
    · exact hmem
  have hlt : blanks.length < part.rest.length := by
    by_contra hle
    have hfront : part.rest <+: blanks :=
      List.prefix_of_prefix_length_le ⟨finish.rest, rfl⟩ ⟨'@' :: more, hmore.symm⟩ (Nat.not_lt.mp hle)
    have hinline := hblanks c (hfront.subset hmem)
    simp only [isInlineBlank, Bool.or_eq_true, beq_iff_eq] at hinline
    obtain rfl | rfl := hinline <;> exact absurd hc (by decide)
  have hlength := congrArg List.length hbefore
  simp only [List.length_append, List.length_cons, List.length_nil] at hlength
  simp only [Resume.admits, Bool.and_eq_true, decide_eq_true_eq, hstart] at hadmits
  omega

end Lines

section Ends

variable {setting : Setting} {line finish : Cursor} {candidate : Candidate}

theorem readCandidate_of_failsWith {fault : Issue} {offset : Nat}
    (h : candidate.FailsWith setting fault offset) :
    readCandidate setting candidate = .ok
      { issues := [(fault, offset)],
        resume := { offset := nextLine candidate.start, maxIndent := some candidate.indent } } := by
  rw [readCandidate]
  simp only [show _ = _ from h.1, beq_self_eq_true, if_true, readTag, h.2]

theorem readCandidate_of_endsAt (h : candidate.EndsAt setting finish) :
    ∃ outcome, readCandidate setting candidate = .ok outcome ∧
      outcome.resume = { offset := finish.offset } := by
  rw [readCandidate]
  obtain ⟨hopening, node, problems, hrun⟩ | ⟨hopening, rfl⟩ := h
  · simp only [show _ = _ from hopening, beq_self_eq_true, if_true, readTag, hrun]
    exact ⟨_, rfl, rfl⟩
  · rw [if_neg (by simpa using show ¬ _ = _ from hopening)]
    refine ⟨_, rfl, ?_⟩
    simp only [readBare]
    split_ifs <;> rfl

/-- Unless a whole number in it is too long, a tag fails or ends somewhere. -/
theorem Candidate.fails_or_ends {outcome : Outcome} (h : readCandidate setting candidate = .ok outcome) :
    (∃ fault offset, candidate.FailsWith setting fault offset) ∨
      ∃ finish, candidate.EndsAt setting finish := by
  by_cases hopening : candidate.HasArguments
  · cases hrun : (Reader.topTag setting).run { cursor := candidate.start } with
    | ok found => exact .inr ⟨found.2.cursor, .inl ⟨hopening, found.1, found.2.problems, hrun⟩⟩
    | error stop =>
        cases stop with
        | issue fault offset => exact .inl ⟨fault, offset, hopening, hrun⟩
        | number number =>
            rw [readCandidate] at h
            simp only [show _ = _ from hopening, beq_self_eq_true, if_true, readTag, hrun] at h
            cases h
  · exact .inr ⟨_, .inr ⟨hopening, rfl⟩⟩

/-- A tag ends right behind a character that is no blank. -/
theorem Candidate.EndsAt.exists_last (h : candidate.EndsAt setting finish)
    (hcandidate : candidate? line = some candidate) :
    ∃ body c, candidate.start.rest = body ++ c :: finish.rest ∧
      finish.offset = candidate.start.offset + body.length + 1 ∧ isBlank c = false := by
  obtain ⟨_, rest, -, -, hstart, hname, hne⟩ := candidate?_spec hcandidate
  have hrest : candidate.start.rest = '@' :: rest := congrArg Cursor.rest hstart
  obtain ⟨hopening, node, problems, hrun⟩ | ⟨-, rfl⟩ := h
  · -- The tag is read as in the text that it starts.
    have hshift := @Reader.topTag_shifts candidate.start.offset setting
      { cursor := ⟨0, candidate.start.rest⟩ }
    obtain ⟨state, hstate, hfinish⟩ := shiftResult_eq_ok_iff.mp (hshift.symm.trans hrun)
    obtain rfl : state.cursor.shift candidate.start.offset = finish := congrArg ReadState.cursor hfinish
    have hread : candidate.name = tagName (candidate.start.rest.drop 1) := by
      rw [hname, hrest]
      rfl
    rw [Candidate.HasArguments, hread] at hopening
    have hbehind := @Reader.topTag_behind _ candidate.start.rest { cursor := ⟨0, candidate.start.rest⟩ }
      _ _ rfl hopening hstate
    obtain ⟨part, hpart, hoffset⟩ := hbehind.exists_part
    exact ⟨part, ')', hpart, by rw [Cursor.offset_shift, hoffset, Nat.add_assoc], by decide⟩
  · obtain ⟨base, more, hmore, htag⟩ := tagName_spec hne
    rw [← hname] at hmore htag
    obtain ⟨front, c, hlast⟩ := (List.eq_nil_or_concat candidate.name).resolve_left htag.ne_nil
    refine ⟨'@' :: front, c, ?_, ?_, isBlank_of_mem_tagName htag (by rw [hlast]; simp)⟩
    · have hbehind : (candidate.start.advance (candidate.name.length + 1)).rest = more := by
        rw [Cursor.advance, hrest, hmore, List.drop_succ_cons, List.drop_left]
      rw [hbehind, hrest, hmore, hlast]
      simp
    · rw [hlast]
      simp [Cursor.advance, Nat.add_assoc]

/-- Where reading goes on behind a tag that is read to its end. -/
theorem Candidate.EndsAt.readLines_eq (h : candidate.EndsAt setting finish)
    (hcandidate : candidate? line = some candidate) {text : List Char}
    (hwithin : candidate.start.Within text) :
    readLines setting { offset := finish.offset } candidate.start.laterLines =
      readLines setting {} (lineStarts (nextLine finish) (text.drop (nextLine finish))) := by
  obtain ⟨body, c, hrest, hoffset, hc⟩ := h.exists_last hcandidate
  have hfinish : finish.Within text := hwithin.of_append hrest hoffset
  rw [readLines_laterLines hrest hoffset hc]
  obtain ⟨hnil, hnext⟩ | ⟨part, more, hmore, hnext, hlines⟩ := laterLines_cases finish
  · have hempty : text.drop (nextLine finish) = [] := by
      rw [hnext, ← List.drop_drop, ← hfinish, List.drop_length]
    rw [hnil, hempty]
    rfl
  · have hdrop : text.drop (nextLine finish) = more := by
      rw [hnext, Nat.add_assoc, ← List.drop_drop, ← hfinish, hmore, List.append_cons,
        ← List.length_singleton, ← List.length_append, List.drop_left]
    rw [hdrop, ← hlines]
    exact readLines_of_le fun line hline =>
      Nat.le_trans (le_nextLine finish) (le_of_mem_laterLines hline)

/-- Behind a tag that fails, the next tag that is read is the first one that does not stand deeper. -/
theorem readLines_startsTag {start : Cursor} {indent : Nat} :
    readLines setting { offset := nextLine start, maxIndent := some indent } start.laterLines =
      match start.laterLines.find? (Cursor.startsTag indent) with
      | none => .ok ([], [])
      | some line => readLines setting {} (lineStarts line.offset line.rest) := by
  have hadmits {line : Cursor} (hline : line ∈ start.laterLines) :
      (candidate? line).filter (Resume.admits { offset := nextLine start, maxIndent := some indent }) =
        if line.startsTag indent then candidate? line else none := by
    cases hcandidate : candidate? line with
    | none => simp
    | some candidate =>
        have hle := Nat.le_trans (le_of_mem_laterLines hline) (candidate?_le hcandidate)
        simp [Option.filter_some, Resume.admits, Cursor.startsTag, hcandidate, hle]
  cases hfind : start.laterLines.find? (Cursor.startsTag indent) with
  | none =>
      rw [List.find?_eq_none] at hfind
      refine readLines_of_none fun line hline => ?_
      rw [hadmits hline, if_neg (hfind line hline)]
  | some line =>
      obtain ⟨hstarts, before, rest, hlines, hbefore⟩ := List.find?_eq_some_iff_append.mp hfind
      have hmem : line ∈ start.laterLines := by rw [hlines]; simp
      have hconsecutive := Consecutive.laterLines start
      rw [hlines] at hconsecutive
      have hpassed : ∀ other ∈ before, (candidate? other).filter
          (Resume.admits { offset := nextLine start, maxIndent := some indent }) = none := by
        intro other hother
        rw [hadmits (by rw [hlines]; simp [hother]), if_neg (by simpa using hbefore other hother)]
      obtain ⟨candidate, hcandidate⟩ : ∃ candidate, candidate? line = some candidate := by
        rw [← Option.isSome_iff_exists]
        exact Option.isSome_of_any hstarts
      dsimp only
      rw [hlines, readLines_append hpassed, lineStarts_eq_cons, ← hconsecutive.eq_laterLines, readLines,
        readLines, hadmits hmem, if_pos hstarts, hcandidate]
      rfl

end Ends

section Block

variable {constants : Constants} {block : Block}

/-- Parsing, on its own, of the text of a block from an offset on. The annotations and faults have the
places that they have in the block. -/
def parseBehind (constants : Constants) (block : Block) (offset : Nat) :
    Except LongNumber (List Node × List ParseError) :=
  parseText constants (fun later => block.location (offset + later)) (block.text.toList.drop offset)

/-- Faults of a block with the places of their offsets. -/
def errorsIn (block : Block) (issues : List (Issue × Nat)) : List ParseError :=
  issues.map fun issue => ⟨issue.1, block.location issue.2⟩

theorem parseBehind_eq (offset : Nat) :
    parseBehind constants block offset =
      (readLines ⟨constants, block.location⟩ {}
        (lineStarts offset (block.text.toList.drop offset))).map fun found =>
          (found.1, errorsIn block found.2) := by
  rw [parseBehind, parseText_behind, readLines_of_le fun line hline => le_of_mem_lineStarts hline]
  rfl

theorem parse_eq_parseBehind : parse constants block = parseBehind constants block 0 := by
  rw [parseBehind, List.drop_zero]
  simp only [Nat.zero_add]
  rfl

/-- Parsing, on its own, from the first of some lines on that starts with a tag, no deeper than an
indentation; there is nothing to parse when no line does. -/
def parseFromTag (constants : Constants) (block : Block) (indent : Nat) (lines : List Cursor) :
    Except LongNumber (List Node × List ParseError) :=
  match lines.find? (Cursor.startsTag indent) with
  | none => .ok ([], [])
  | some line => parseBehind constants block line.offset

variable {nodes : List Node} {issues : List (Issue × Nat)} {candidate : Candidate}

/-- Parsing gives what it gives before a candidate, what the candidate gives, and what the lines behind
the candidate give. -/
theorem Meets.parse_eq
    (h : Meets ⟨constants, block.location⟩ {} (lineStarts 0 block.text.toList) nodes issues candidate)
    {outcome : Outcome} (houtcome : readCandidate ⟨constants, block.location⟩ candidate = .ok outcome) :
    parse constants block =
      ((readLines ⟨constants, block.location⟩ outcome.resume candidate.start.laterLines).map fun later =>
        (later.1, errorsIn block later.2)).map fun later =>
          (nodes ++ outcome.node.toList ++ later.1,
            errorsIn block (issues ++ outcome.issues) ++ later.2) := by
  have hlines : Consecutive (lineStarts 0 block.text.toList) := .lineStarts ⟨0, block.text.toList⟩
  rw [parse_eq_parseBehind, parseBehind_eq, List.drop_zero, h.readLines_eq hlines, houtcome]
  change Except.map _ (readLines _ outcome.resume candidate.start.laterLines >>= _) = _
  cases readLines ⟨constants, block.location⟩ outcome.resume candidate.start.laterLines with
  | error number => rfl
  | ok later =>
      change Except.ok (_, errorsIn block (_ ++ (_ ++ _))) = Except.ok (_, _)
      simp only [errorsIn, List.map_append, List.append_assoc]

/-- When parsing ends with a result, so does reading of each candidate that it comes to. -/
theorem Meets.exists_outcome
    (h : Meets ⟨constants, block.location⟩ {} (lineStarts 0 block.text.toList) nodes issues candidate)
    {found : List Node × List ParseError} (hparse : parse constants block = .ok found) :
    ∃ outcome, readCandidate ⟨constants, block.location⟩ candidate = .ok outcome := by
  have hlines : Consecutive (lineStarts 0 block.text.toList) := .lineStarts ⟨0, block.text.toList⟩
  obtain ⟨all, hall, -⟩ := Result.bind_eq_ok_iff.mp hparse
  change readLines ⟨constants, block.location⟩ {} (lineStarts 0 block.text.toList) = .ok all at hall
  rw [h.readLines_eq hlines] at hall
  obtain ⟨outcome, houtcome, -⟩ := Result.bind_eq_ok_iff.mp hall
  exact ⟨outcome, houtcome⟩

theorem Meets.within
    (h : Meets ⟨constants, block.location⟩ {} (lineStarts 0 block.text.toList) nodes issues candidate) :
    candidate.start.Within block.text.toList := by
  obtain ⟨line, hline, hcandidate⟩ := h.exists_line
  exact candidate?_within hcandidate (within_of_mem_lineStarts hline)

/-- Parsing starts anew behind each tag that it comes to. Where the tag fails, all that is found behind
it is found by parsing, on its own, from the first later line on that starts with a tag which does not
stand deeper. Where the tag is read to its end, or has no arguments, it is found by parsing from the
next line on. Unless a whole number is too long, there is no third case. -/
theorem parse_restarts
    (h : Meets ⟨constants, block.location⟩ {} (lineStarts 0 block.text.toList) nodes issues candidate) :
    (∀ fault offset, candidate.FailsWith ⟨constants, block.location⟩ fault offset →
      parse constants block =
        (parseFromTag constants block candidate.indent candidate.start.laterLines).map fun later =>
          (nodes ++ later.1, errorsIn block (issues ++ [(fault, offset)]) ++ later.2)) ∧
    (∀ finish, candidate.EndsAt ⟨constants, block.location⟩ finish →
      ∃ outcome, readCandidate ⟨constants, block.location⟩ candidate = .ok outcome ∧
        parse constants block =
          (parseBehind constants block (nextLine finish)).map fun later =>
            (nodes ++ outcome.node.toList ++ later.1,
              errorsIn block (issues ++ outcome.issues) ++ later.2)) ∧
    ((∃ number, readCandidate ⟨constants, block.location⟩ candidate = .error number) ∨
      (∃ fault offset, candidate.FailsWith ⟨constants, block.location⟩ fault offset) ∨
        ∃ finish, candidate.EndsAt ⟨constants, block.location⟩ finish) := by
  refine ⟨fun fault offset hfails => ?_, fun finish hends => ?_, ?_⟩
  · rw [h.parse_eq (readCandidate_of_failsWith hfails), readLines_startsTag, parseFromTag]
    cases hfind : candidate.start.laterLines.find? (Cursor.startsTag candidate.indent) with
    | none => simp [Except.map, errorsIn]
    | some line =>
        have hwithin := within_of_mem_laterLines h.within (List.mem_of_find?_eq_some hfind)
        dsimp only
        rw [parseBehind_eq, ← hwithin, Option.toList_none, List.append_nil]
  · obtain ⟨outcome, houtcome, hresume⟩ := readCandidate_of_endsAt hends
    obtain ⟨line, -, hcandidate⟩ := h.exists_line
    refine ⟨outcome, houtcome, ?_⟩
    rw [h.parse_eq houtcome, hresume, hends.readLines_eq hcandidate h.within, parseBehind_eq]
  · cases houtcome : readCandidate ⟨constants, block.location⟩ candidate with
    | error number => exact .inl ⟨number, rfl⟩
    | ok outcome => exact .inr (Candidate.fails_or_ends houtcome)

end Block

/-- The general theorem for a tag that fails, with a deeper tag behind it that is passed, and for the tag
with which parsing starts anew. -/
theorem parse_restarts_get :
    let block : Block :=
      { source := "api.php", symbol := .ofFile "api.php", startLine := 1, startColumn := 1, endLine := 3
        text := "@Get(path=1 x)\n @Response\n@Tag(name=2)" }
    let setting : Setting := ⟨[], block.location⟩
    let failing : Candidate := ⟨0, ⟨0, block.text.toList⟩, "Get".toList⟩
    let sibling : Candidate := ⟨0, ⟨26, "@Tag(name=2)".toList⟩, "Tag".toList⟩
    (Meets setting {} (lineStarts 0 block.text.toList) [] [] failing ∧
      failing.FailsWith setting (.argumentEndExpected "Get" 'x') 12 ∧
      parse [] block = (parseFromTag [] block 0 failing.start.laterLines).map fun later =>
        (later.1, errorsIn block [(.argumentEndExpected "Get" 'x', 12)] ++ later.2)) ∧
    (Meets setting {} (lineStarts 0 block.text.toList) [] [(.argumentEndExpected "Get" 'x', 12)] sibling ∧
      sibling.EndsAt setting ⟨38, []⟩ ∧
      ∃ outcome, readCandidate setting sibling = .ok outcome ∧
        parse [] block = (parseBehind [] block 38).map fun later =>
          (outcome.node.toList ++ later.1,
            errorsIn block ((.argumentEndExpected "Get" 'x', 12) :: outcome.issues) ++ later.2)) := by
  intro block setting failing sibling
  have hlines : lineStarts 0 block.text.toList = [⟨0, block.text.toList⟩,
      ⟨15, " @Response\n@Tag(name=2)".toList⟩, ⟨26, "@Tag(name=2)".toList⟩] := by decide +kernel
  have hfails : failing.FailsWith setting (.argumentEndExpected "Get" 'x') 12 := by
    have hrun : ((Reader.topTag setting).run { cursor := failing.start }).map (·.2.cursor) =
        .error (.issue (.argumentEndExpected "Get" 'x') 12) := by decide +kernel
    refine ⟨by decide +kernel, ?_⟩
    cases hresult : (Reader.topTag setting).run { cursor := failing.start } with
    | error stop =>
        rw [hresult] at hrun
        exact congrArg Except.error (Except.error.inj hrun)
    | ok found =>
        rw [hresult] at hrun
        cases hrun
  have hends : sibling.EndsAt setting ⟨38, []⟩ := by
    have hrun : ((Reader.topTag setting).run { cursor := sibling.start }).map (·.2.cursor) =
        .ok ⟨38, []⟩ := by decide +kernel
    obtain ⟨⟨node, finish, problems⟩, hresult, hfinish⟩ := Result.map_eq_ok_iff.mp hrun
    obtain rfl : finish = ⟨38, []⟩ := hfinish
    exact .inl ⟨by decide +kernel, node, problems, hresult⟩
  have hmeets : Meets setting {} (lineStarts 0 block.text.toList) [] [] failing := by
    rw [hlines]
    exact .here (by decide +kernel)
  have hsibling : Meets setting {} (lineStarts 0 block.text.toList) []
      [(.argumentEndExpected "Get" 'x', 12)] sibling := by
    rw [hlines]
    exact .read (by decide +kernel) (readCandidate_of_failsWith hfails)
      (.pass (by decide +kernel) (.here (by decide +kernel)))
  obtain ⟨outcome, houtcome, hparse⟩ := (parse_restarts hsibling).2.1 _ hends
  refine ⟨⟨hmeets, hfails, (parse_restarts hmeets).1 _ _ hfails⟩,
    hsibling, hends, outcome, houtcome, ?_⟩
  rw [hparse]
  rfl

end DocCompiler.Annotation
