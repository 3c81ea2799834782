import DocCompiler.Annotation.Parse
import DocCompiler.Proofs.Annotation.Run

/-!
Reading does not depend on where in a text it takes place. A part of a text is read as on its own, with
all offsets counted from the start of the whole text.
-/

namespace DocCompiler.Annotation

open Text

/-- The same characters, a distance further on. -/
def Cursor.shift (distance : Nat) (cursor : Cursor) : Cursor :=
  { cursor with offset := distance + cursor.offset }

namespace Cursor

variable {distance : Nat} {cursor : Cursor}

@[simp] theorem offset_shift : (cursor.shift distance).offset = distance + cursor.offset :=
  rfl

@[simp] theorem rest_shift : (cursor.shift distance).rest = cursor.rest :=
  rfl

@[simp] theorem peek?_shift : (cursor.shift distance).peek? = cursor.peek? :=
  rfl

@[simp] theorem advance_shift (count : Nat) :
    (cursor.shift distance).advance count = (cursor.advance count).shift distance := by
  simp only [advance, shift, Nat.add_assoc]

@[simp] theorem skipBlanks_shift :
    (cursor.shift distance).skipBlanks = cursor.skipBlanks.shift distance :=
  advance_shift _

@[simp] theorem skipInlineBlanks_shift :
    (cursor.shift distance).skipInlineBlanks = cursor.skipInlineBlanks.shift distance :=
  advance_shift _

end Cursor

/-- Faults, a distance further on. -/
def shiftIssues (distance : Nat) (issues : List (Issue × Nat)) : List (Issue × Nat) :=
  issues.map fun issue => (issue.1, distance + issue.2)

@[simp] theorem shiftIssues_nil {distance : Nat} : shiftIssues distance [] = [] :=
  rfl

@[simp] theorem shiftIssues_cons {distance : Nat} {issue : Issue × Nat} {issues : List (Issue × Nat)} :
    shiftIssues distance (issue :: issues) =
      (issue.1, distance + issue.2) :: shiftIssues distance issues :=
  rfl

@[simp] theorem shiftIssues_append {distance : Nat} {issues others : List (Issue × Nat)} :
    shiftIssues distance (issues ++ others) =
      shiftIssues distance issues ++ shiftIssues distance others :=
  List.map_append

/-- What stops reading, a distance further on. -/
def Stop.shift (distance : Nat) : Stop → Stop
  | .issue fault offset => .issue fault (distance + offset)
  | .number long => .number long

/-- The same state, a distance further on. -/
def ReadState.shift (distance : Nat) (state : ReadState) : ReadState :=
  { cursor := state.cursor.shift distance, problems := shiftIssues distance state.problems }

/-- What readers know of a part of a text that stands at a distance from the start. -/
def Setting.behind (distance : Nat) (setting : Setting) : Setting :=
  { setting with place := fun offset => setting.place (distance + offset) }

@[simp] theorem Setting.constants_behind {distance : Nat} {setting : Setting} :
    (setting.behind distance).constants = setting.constants :=
  rfl

/-- The result of a reader, a distance further on. -/
def shiftResult {α : Type} (distance : Nat) :
    Except Stop (α × ReadState) → Except Stop (α × ReadState)
  | .ok (found, state) => .ok (found, state.shift distance)
  | .error stop => .error (stop.shift distance)

theorem shiftResult_eq_ok_iff {α : Type} {distance : Nat} {result : Except Stop (α × ReadState)}
    {found : α} {later : ReadState} :
    shiftResult distance result = .ok (found, later) ↔
      ∃ state, result = .ok (found, state) ∧ state.shift distance = later := by
  cases result with
  | error stop => simp [shiftResult]
  | ok given => simp [shiftResult, Prod.ext_iff]

/-- A reader gives a distance further on what another one gives. -/
def Shifts {α : Type} (distance : Nat) (moved reader : Reader α) : Prop :=
  ∀ state, moved.run (state.shift distance) = shiftResult distance (reader.run state)

namespace Shifts

variable {α β : Type} {distance : Nat} {moved reader : Reader α}

theorem pure (found : α) : Shifts distance (pure found) (pure found) :=
  fun _ => rfl

theorem bind {movedNext next : α → Reader β} (h : Shifts distance moved reader)
    (hnext : ∀ found, Shifts distance (movedNext found) (next found)) :
    Shifts distance (moved >>= movedNext) (reader >>= next) := by
  intro state
  cases hrun : reader.run state with
  | error stop =>
      have hmoved : moved.run (state.shift distance) = .error (stop.shift distance) := by
        rw [h, hrun]
        rfl
      rw [Result.run_bind_of_error hrun, Result.run_bind_of_error hmoved]
      rfl
  | ok result =>
      obtain ⟨found, later⟩ := result
      have hmoved : moved.run (state.shift distance) = .ok (found, later.shift distance) := by
        rw [h, hrun]
        rfl
      rw [Result.run_bind_of_ok hrun, Result.run_bind_of_ok hmoved]
      exact hnext found later

theorem cursor_bind {movedNext next : Cursor → Reader β}
    (h : ∀ cursor : Cursor, Shifts distance (movedNext (cursor.shift distance)) (next cursor)) :
    Shifts distance (Reader.cursor >>= movedNext) (Reader.cursor >>= next) :=
  fun state => h state.cursor state

theorem moveTo (cursor : Cursor) :
    Shifts distance (Reader.moveTo (cursor.shift distance)) (Reader.moveTo cursor) :=
  fun _ => rfl

theorem advance (count : Nat) : Shifts distance (Reader.advance count) (Reader.advance count) := by
  intro state
  exact congrArg (fun cursor => Except.ok ((), ReadState.mk cursor (shiftIssues distance state.problems)))
    (Cursor.advance_shift count)

theorem skipBlanks : Shifts distance Reader.skipBlanks Reader.skipBlanks := by
  intro state
  exact congrArg (fun cursor => Except.ok ((), ReadState.mk cursor (shiftIssues distance state.problems)))
    Cursor.skipBlanks_shift

theorem fail (issue : Issue) (offset : Nat) :
    Shifts distance (Reader.fail issue (distance + offset) : Reader α) (Reader.fail issue offset) :=
  fun _ => rfl

theorem note (issue : Issue) (offset : Nat) :
    Shifts distance (Reader.note issue (distance + offset)) (Reader.note issue offset) := by
  intro state
  exact congrArg (fun problems => Except.ok ((), ReadState.mk (state.cursor.shift distance) problems))
    (@shiftIssues_append distance state.problems [(issue, offset)]).symm

theorem number (number : LongNumber) :
    Shifts distance (throw (.number number) : Reader α) (throw (.number number)) :=
  fun _ => rfl

end Shifts

namespace Reader

section Readers

variable {distance : Nat} {setting : Setting} {inner other : Inner}

theorem string_shifts : Shifts distance string string := by
  refine .cursor_bind fun start => ?_
  dsimp only [Cursor.rest_shift, Cursor.offset_shift]
  cases stringBody (start.rest.drop 1) with
  | none => exact .fail _ _
  | some found => exact .bind (.advance _) fun _ => .pure _

/-- The readers of a level give a distance further on what the readers of another one give. -/
structure Inner.Shifts (distance : Nat) (moved inner : Inner) : Prop where
  tag : Annotation.Shifts distance moved.tag inner.tag
  braces : Annotation.Shifts distance moved.braces inner.braces

theorem numeralValue_shifts (literal : List Char) :
    Shifts distance (numeralValue literal : Reader Value) (numeralValue literal : Reader Value) := by
  simp only [numeralValue]
  split_ifs
  · exact .pure _
  · split
    · exact .pure _
    · exact .number _

theorem value_shifts (hinner : other.Shifts distance inner) :
    Shifts distance (value setting other) (value (setting.behind distance) inner) := by
  refine .cursor_bind fun start => ?_
  rw [Cursor.peek?_shift, Cursor.rest_shift, Cursor.offset_shift, Setting.constants_behind]
  split
  · exact .fail _ _
  · exact .bind string_shifts fun _ => .pure _
  · exact hinner.braces
  · exact .bind hinner.tag fun _ => .pure _
  · dsimp only
    split_ifs
    · exact .bind (.advance _) fun _ => numeralValue_shifts _
    · exact .fail _ _
    · refine .bind (.advance _) fun _ => ?_
      split
      · exact .pure _
      · exact .fail _ _
      · exact .number _

section List

variable {σ : Type} {close : Char} {movedUnclosed unclosed : Reader σ} {endExpected : Char → Issue}
  {movedItem item : σ → Reader σ} (hunclosed : Shifts distance movedUnclosed unclosed)
  (hitem : ∀ done, Shifts distance (movedItem done) (item done))

include hunclosed hitem

theorem items_shifts (fuel : Nat) (done : σ) :
    Shifts distance (items close movedUnclosed endExpected movedItem fuel done)
      (items close unclosed endExpected item fuel done) := by
  induction fuel generalizing done with
  | zero => exact hunclosed
  | succ fuel ih =>
      refine .bind (hitem done) fun done => .bind .skipBlanks fun _ => .cursor_bind fun here => ?_
      rw [Cursor.peek?_shift]
      cases here.peek? with
      | none => exact hunclosed
      | some c =>
          dsimp only
          split_ifs
          · refine .bind (.advance 1) fun _ => .bind .skipBlanks fun _ => .cursor_bind fun here => ?_
            rw [Cursor.peek?_shift]
            split_ifs
            · exact .bind (.advance 1) fun _ => .pure done
            · exact ih done
          · exact .bind (.advance 1) fun _ => .pure done
          · exact .fail _ _

theorem list_shifts (empty : σ) :
    Shifts distance (list close movedUnclosed endExpected movedItem empty)
      (list close unclosed endExpected item empty) := by
  refine .bind (.advance 1) fun _ => .bind .skipBlanks fun _ => .cursor_bind fun here => ?_
  rw [Cursor.peek?_shift, Cursor.rest_shift]
  split_ifs
  · exact .bind (.advance 1) fun _ => .pure empty
  · exact items_shifts hunclosed hitem _ empty

end List

theorem argument_shifts (hinner : other.Shifts distance inner) (tag : String) (done : Arguments) :
    Shifts distance (argument setting other tag done)
      (argument (setting.behind distance) inner tag done) := by
  refine .cursor_bind fun start => ?_
  dsimp only
  rw [Cursor.peek?_shift, Cursor.rest_shift, Cursor.offset_shift, Cursor.advance_shift,
    Cursor.skipBlanks_shift, Cursor.peek?_shift, Cursor.advance_shift, Cursor.skipBlanks_shift]
  split_ifs
  · exact .bind hinner.tag fun _ => .pure _
  · refine .bind (.moveTo _) fun _ => .bind (value_shifts hinner) fun _ => ?_
    exact .bind (.note _ _) fun _ => .pure _
  · exact .bind (.moveTo _) fun _ => .bind (value_shifts hinner) fun _ => .pure _
  · exact .bind (value_shifts hinner) fun _ => .bind (.note _ _) fun _ => .pure _

theorem tag_shifts (hinner : other.Shifts distance inner) (nested : Bool) :
    Shifts distance (tag setting other nested) (tag (setting.behind distance) inner nested) := by
  refine .cursor_bind fun start => ?_
  dsimp only
  rw [Cursor.rest_shift, Cursor.offset_shift]
  split_ifs
  · exact .fail _ _
  -- Only a nested tag that is not known is noted.
  on_goal 1 => refine .bind (.advance _) fun _ => .bind (.note _ _) fun _ => ?_
  on_goal 2 => refine .bind (.advance _) fun _ => ?_
  all_goals
    refine .cursor_bind fun here => ?_
    rw [Cursor.skipInlineBlanks_shift, Cursor.peek?_shift, Cursor.offset_shift]
    split_ifs
    · refine .bind (.moveTo _) fun _ => .bind ?_ fun _ => .pure _
      exact list_shifts (.fail _ _) (argument_shifts hinner _) {}
    · exact .pure _

theorem entryKey?_shifts : Shifts distance entryKey? entryKey? := by
  refine .cursor_bind fun start => ?_
  rw [Cursor.peek?_shift, Cursor.rest_shift]
  split_ifs
  on_goal 1 => refine .bind string_shifts fun _ => .bind (.pure _) fun key => .cursor_bind fun here => ?_
  on_goal 2 => refine .bind (.advance _) fun _ => .bind (.pure _) fun key => .cursor_bind fun here => ?_
  all_goals
    dsimp only
    rw [Cursor.skipBlanks_shift, Cursor.rest_shift, Cursor.advance_shift]
    split
    · exact .bind (.moveTo _) fun _ => .pure _
    · split_ifs
      · exact .bind (.moveTo _) fun _ => .pure _
      · exact .bind (.moveTo _) fun _ => .pure _
    · exact .bind (.moveTo _) fun _ => .pure _

theorem entry_shifts (hinner : other.Shifts distance inner) (done : Entries) :
    Shifts distance (entry setting other done) (entry (setting.behind distance) inner done) := by
  refine .bind .skipBlanks fun _ => .bind entryKey?_shifts fun key => .bind .skipBlanks fun _ =>
    .bind (value_shifts hinner) fun given => ?_
  cases key with
  | none => exact .pure _
  | some key => exact .pure _

theorem braces_shifts (hinner : other.Shifts distance inner) :
    Shifts distance (braces setting other) (braces (setting.behind distance) inner) := by
  refine .cursor_bind fun start =>
    .bind (list_shifts (.fail _ _) (entry_shifts hinner) {}) fun found => ?_
  split_ifs
  · exact .bind (.note _ _) fun _ => .pure _
  · exact .pure _
  · exact .bind (.note _ _) fun _ => .pure _
  · exact .pure _

theorem tooDeep_shifts {α : Type} : Shifts distance (tooDeep : Reader α) tooDeep :=
  .cursor_bind fun _ => .fail _ _

/-- On every level, the readers give a distance further on what they give at the start of a text. -/
theorem levels_shifts (depth : Nat) :
    Inner.Shifts distance (levels setting depth) (levels (setting.behind distance) depth) := by
  induction depth with
  | zero => exact ⟨tooDeep_shifts, tooDeep_shifts⟩
  | succ depth ih => exact ⟨tag_shifts ih true, braces_shifts ih⟩

theorem topTag_shifts : Shifts distance (topTag setting) (topTag (setting.behind distance)) :=
  tag_shifts (levels_shifts _) false

end Readers

end Reader

/-- A candidate, a distance further on. -/
def Candidate.shift (distance : Nat) (candidate : Candidate) : Candidate :=
  { candidate with start := candidate.start.shift distance }

@[simp] theorem Candidate.name_shift {distance : Nat} {candidate : Candidate} :
    (candidate.shift distance).name = candidate.name :=
  rfl

/-- Where reading goes on, a distance further on. -/
def Resume.shift (distance : Nat) (resume : Resume) : Resume :=
  { resume with offset := distance + resume.offset }

/-- What reading a candidate gives, a distance further on. -/
def Outcome.shift (distance : Nat) (outcome : Outcome) : Outcome :=
  { outcome with
    issues := shiftIssues distance outcome.issues, resume := outcome.resume.shift distance }

/-- An annotation is given when there are no faults, and so a distance further on. -/
theorem Outcome.shift_of_issues {distance offset : Nat} {node : Node} {issues : List (Issue × Nat)} :
    Outcome.shift distance ⟨if issues.isEmpty then some node else none, issues, { offset }⟩ =
      ⟨if (shiftIssues distance issues).isEmpty then some node else none, shiftIssues distance issues,
        { offset := distance + offset }⟩ := by
  cases issues <;> rfl

section Lines

variable {distance : Nat} {setting : Setting}

theorem candidate?_shift (line : Cursor) :
    candidate? (line.shift distance) = (candidate? line).map (Candidate.shift distance) := by
  simp only [candidate?, Cursor.skipInlineBlanks_shift, Cursor.peek?_shift, Cursor.rest_shift,
    Cursor.offset_shift, Nat.add_sub_add_left]
  split_ifs <;> rfl

theorem Resume.admits_shift (resume : Resume) (candidate : Candidate) :
    (resume.shift distance).admits (candidate.shift distance) = resume.admits candidate :=
  congrArg (· && _) (decide_eq_decide.mpr Nat.add_le_add_iff_left)

theorem nextLine_shift (cursor : Cursor) :
    nextLine (cursor.shift distance) = distance + nextLine cursor := by
  dsimp only [nextLine]
  rw [Cursor.rest_shift, Cursor.offset_shift]
  omega

theorem readBare_shift (candidate : Candidate) :
    readBare setting (candidate.shift distance) =
      (readBare (setting.behind distance) candidate).shift distance := by
  simp only [readBare, Candidate.shift, Cursor.offset_shift, Nat.add_assoc]
  split_ifs <;> rfl

theorem readTag_shift (candidate : Candidate) :
    readTag setting (candidate.shift distance) =
      (readTag (setting.behind distance) candidate).map (Outcome.shift distance) := by
  have hrun := @Reader.topTag_shifts distance setting { cursor := candidate.start }
  change (Reader.topTag setting).run { cursor := (candidate.shift distance).start } = _ at hrun
  rw [readTag, readTag, hrun]
  cases (Reader.topTag (setting.behind distance)).run { cursor := candidate.start } with
  | error stop =>
      cases stop with
      | number number => rfl
      | issue issue offset =>
          simp only [shiftResult, Stop.shift, Except.map, Outcome.shift, Resume.shift, Candidate.shift,
            nextLine_shift, shiftIssues_cons, shiftIssues_nil]
  | ok found =>
      obtain ⟨node, state⟩ := found
      refine congrArg Except.ok (Eq.trans ?_ Outcome.shift_of_issues.symm)
      refine congrArg (fun issues => Outcome.mk (if issues.isEmpty then some node else none) issues
        { offset := distance + state.cursor.offset }) ?_
      rw [Candidate.name_shift]
      split_ifs <;> rfl

theorem readCandidate_shift (candidate : Candidate) :
    readCandidate setting (candidate.shift distance) =
      (readCandidate (setting.behind distance) candidate).map (Outcome.shift distance) := by
  simp only [readCandidate]
  rw [Candidate.shift]
  simp only [Cursor.advance_shift, Cursor.skipInlineBlanks_shift, Cursor.peek?_shift]
  split_ifs
  · exact readTag_shift candidate
  · exact congrArg Except.ok (readBare_shift candidate)

/-- Lines are read a distance further on as they are read on their own. -/
theorem readLines_shift (resume : Resume) (lines : List Cursor) :
    readLines setting (resume.shift distance) (lines.map (Cursor.shift distance)) =
      (readLines (setting.behind distance) resume lines).map fun found =>
        (found.1, shiftIssues distance found.2) := by
  induction lines generalizing resume with
  | nil => rfl
  | cons line rest ih =>
      have hfilter : (candidate? (line.shift distance)).filter (resume.shift distance).admits =
          ((candidate? line).filter resume.admits).map (Candidate.shift distance) := by
        rw [candidate?_shift, Option.filter_map]
        simp only [Function.comp_def, Resume.admits_shift]
      rw [List.map_cons, readLines, readLines, hfilter]
      cases (candidate? line).filter resume.admits with
      | none => exact ih resume
      | some candidate =>
          dsimp only [Option.map_some]
          rw [readCandidate_shift]
          cases readCandidate (setting.behind distance) candidate with
          | error number => rfl
          | ok outcome =>
              change (readLines setting (outcome.resume.shift distance) _ >>= _) = _
              rw [ih]
              change _ = Except.map _ (readLines (setting.behind distance) outcome.resume rest >>= _)
              cases readLines (setting.behind distance) outcome.resume rest with
              | error number => rfl
              | ok found =>
                  change Except.ok (_, _) = Except.ok (_, _)
                  rw [shiftIssues_append]
                  rfl

theorem behindBreaks_shift (offset : Nat) (text : List Char) :
    lineStarts.behindBreaks (distance + offset) text =
      (lineStarts.behindBreaks offset text).map (Cursor.shift distance) := by
  induction text generalizing offset with
  | nil => rfl
  | cons c rest ih =>
      rw [lineStarts.behindBreaks, lineStarts.behindBreaks, Nat.add_assoc, ih]
      split_ifs <;> rfl

theorem lineStarts_shift (offset : Nat) (text : List Char) :
    lineStarts (distance + offset) text = (lineStarts offset text).map (Cursor.shift distance) := by
  cases text with
  | nil => rfl
  | cons c rest => exact congrArg (List.cons _) (behindBreaks_shift offset (c :: rest))

end Lines

/-- The lines of a part of a text are read as the part is parsed on its own, with the places that its
offsets have in the whole text. -/
theorem parseText_behind (constants : Constants) (place : Nat → Location) (distance : Nat)
    (text : List Char) :
    parseText constants (fun offset => place (distance + offset)) text =
      (readLines ⟨constants, place⟩ { offset := distance } (lineStarts distance text)).map fun found =>
        (found.1, found.2.map fun issue => ⟨issue.1, place issue.2⟩) := by
  have hlines := @readLines_shift distance ⟨constants, place⟩ {} (lineStarts 0 text)
  rw [← lineStarts_shift, Nat.add_zero] at hlines
  change readLines _ { offset := distance } _ = _ at hlines
  rw [hlines, parseText]
  change (readLines (Setting.behind distance ⟨constants, place⟩) {} (lineStarts 0 text) >>= _) = _
  cases readLines (Setting.behind distance ⟨constants, place⟩) {} (lineStarts 0 text) with
  | error number => rfl
  | ok found =>
      change Except.ok (_, _) = Except.ok (_, _)
      simp only [shiftIssues, List.map_map]
      rfl

end DocCompiler.Annotation
