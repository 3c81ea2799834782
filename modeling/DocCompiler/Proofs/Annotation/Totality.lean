import DocCompiler.Proofs.Annotation.Productions
import DocCompiler.Proofs.Annotation.Restart

/-!
Parsing is total. Readers stay in their text and go on with each round of a loop, whatever the text is;
only a run of digits that is too long, or a constant with such a whole number as a key, leaves parsing
without a result.
-/

namespace DocCompiler

open Text

mutual

/-- All keys of mappings in a value are texts. -/
def Datum.TextKeyed : Datum → Prop
  | .list items => Datum.AllTextKeyed items
  | .map entries => Datum.EntriesTextKeyed entries
  | .pair first second => Datum.TextKeyed first ∧ Datum.TextKeyed second
  | _ => True

/-- All keys of mappings in items are texts. -/
def Datum.AllTextKeyed : List Datum → Prop
  | [] => True
  | item :: rest => Datum.TextKeyed item ∧ Datum.AllTextKeyed rest

/-- The keys of entries and of mappings in their values are texts. -/
def Datum.EntriesTextKeyed : List (Datum × Datum) → Prop
  | [] => True
  | (key, item) :: rest =>
      (∃ points, key = .ofCodes points) ∧ Datum.TextKeyed item ∧ Datum.EntriesTextKeyed rest

end

theorem Datum.isShowable_of_text {key : Datum} (h : ∃ points, key = .ofCodes points) :
    key.isShowable = true := by
  obtain ⟨points, rfl⟩ := h
  obtain ⟨text, htext⟩ | hcodes := Datum.ofCodes_cases points
  · rw [htext]
    rfl
  · rw [hcodes]
    rfl

namespace Annotation

mutual

/-- A value whose keys are texts has no key without a text. -/
theorem Value.ofDatum_ne_longKey : (datum : Datum) → datum.TextKeyed → Value.ofDatum datum ≠ .error .longKey
  | .null, _ | .bool _, _ | .number _, _ | .text _, _ | .codes _, _ => nofun
  | .date _, _ | .moment _, _ | .bytes _, _ | .set _, _ | .unresolved _, _ | .again _, _ => nofun
  | .map entries, hentries => fun h =>
      Value.ofDatumEntries_ne_longKey entries hentries (Result.map_eq_error_iff.mp h)
  | .list items, hitems => fun h =>
      Value.ofDatumItems_ne_longKey items hitems (Result.map_eq_error_iff.mp h)
  | .pair first second, ⟨hfirst, hsecond⟩ => fun h => by
      rw [Value.ofDatum] at h
      obtain h | ⟨one, -, h⟩ := Result.bind_eq_error_iff.mp h
      · exact Value.ofDatum_ne_longKey first hfirst h
      obtain h | ⟨two, -, h⟩ := Result.bind_eq_error_iff.mp h
      · exact Value.ofDatum_ne_longKey second hsecond h
      · cases h

theorem Value.ofDatumItems_ne_longKey : (items : List Datum) → Datum.AllTextKeyed items →
    Value.ofDatumItems items ≠ .error .longKey
  | [], _ => nofun
  | item :: rest, ⟨hitem, hrest⟩ => fun h => by
      rw [Value.ofDatumItems] at h
      obtain h | ⟨value, -, h⟩ := Result.bind_eq_error_iff.mp h
      · exact Value.ofDatum_ne_longKey item hitem h
      obtain h | ⟨values, -, h⟩ := Result.bind_eq_error_iff.mp h
      · exact Value.ofDatumItems_ne_longKey rest hrest h
      · cases h

theorem Value.ofDatumEntries_ne_longKey : (entries : List (Datum × Datum)) →
    Datum.EntriesTextKeyed entries → Value.ofDatumEntries entries ≠ .error .longKey
  | [], _ => nofun
  | (key, item) :: rest, ⟨hkey, hitem, hrest⟩ => fun h => by
      rw [Value.ofDatumEntries, Datum.isShowable_of_text hkey] at h
      obtain h | ⟨value, -, h⟩ := Result.bind_eq_error_iff.mp h
      · exact Value.ofDatum_ne_longKey item hitem h
      obtain h | ⟨values, -, h⟩ := Result.bind_eq_error_iff.mp h
      · exact Value.ofDatumEntries_ne_longKey rest hrest h
      · cases h

end

/-- A run ends inside a text, at least some characters further on, or with a fault at an offset of the
text. -/
structure Moves {α : Type} (text : List Char) (least : Nat) (state : ReadState)
    (result : Except Stop (α × ReadState)) : Prop where
  ends : ∀ found later, result = .ok (found, later) →
    later.cursor.Inside text ∧ state.cursor.offset + least ≤ later.cursor.offset
  fails : ∀ fault offset, result = .error (.issue fault offset) → offset ≤ text.length

theorem Consumes.moves {α : Type} {constants : Constants} {text : List Char} {least : Nat} {state : ReadState}
    {post : α → List Char → List (Issue × Nat) → Prop} {result : Except Stop (α × ReadState)}
    (h : Consumes (Stop.Justified constants text) state post result) (hstate : state.cursor.Inside text)
    (hleast : ∀ found part noted, post found part noted → least ≤ part.length) :
    Moves text least state result := by
  cases h with
  | ok hpart hnoted hpost =>
      refine ⟨?_, nofun⟩
      rintro found later ⟨⟩
      exact ⟨hpart.inside hstate, hpart.offset ▸ Nat.add_le_add_left (hleast _ _ _ hpost) _⟩
  | error hstop =>
      refine ⟨nofun, ?_⟩
      rintro fault offset ⟨⟩
      cases hstop with
      | issue hoffset => exact hoffset

theorem Cursor.Inside.length_rest {text : List Char} {cursor : Cursor} (h : cursor.Inside text) :
    cursor.rest.length + cursor.offset = text.length := by
  rw [h.within, List.length_drop, Nat.sub_add_cancel h.le]

namespace Reader

variable {setting : Setting} {text : List Char} {state : ReadState}

/-- Rounds of a loop that go on come to an end: with more fuel than there are characters left, a loop
gives the same as with any more. -/
theorem items_fuel {σ : Type} {close : Char} {unclosed : Reader σ} {endExpected : Char → Issue}
    {item : σ → Reader σ} (hitem : ∀ done (state : ReadState), state.cursor.Inside text →
      Moves text 1 state ((item done).run state))
    {fuel more : Nat} {done : σ} (h : state.cursor.Inside text) (hfuel : state.cursor.rest.length < fuel)
    (hmore : state.cursor.rest.length < more) :
    (items close unclosed endExpected item fuel done).run state =
      (items close unclosed endExpected item more done).run state := by
  induction fuel generalizing more done state with
  | zero => exact absurd hfuel (Nat.not_lt_zero _)
  | succ fuel ih =>
      obtain ⟨more, rfl⟩ := Nat.exists_eq_succ_of_ne_zero (Nat.ne_zero_of_lt hmore)
      have hmoves := hitem done state h
      rw [items, items]
      cases hrun : (item done).run state with
      | error stop => rw [Result.run_bind_of_error hrun, Result.run_bind_of_error hrun]
      | ok result =>
          obtain ⟨found, later⟩ := result
          obtain ⟨hlater, hoffset⟩ := hmoves.ends found later hrun
          obtain ⟨blanks, -, hskip⟩ := Cursor.Passes.skipBlanks later.cursor
          rw [Result.run_bind_of_ok hrun, Result.run_bind_of_ok hrun]
          rw [run_skipBlanks_bind, run_skipBlanks_bind, run_cursor_bind, run_cursor_bind]
          split
          · rfl
          · rename_i c hpeek
            obtain ⟨further, -, hlast⟩ := Cursor.Passes.skipBlanks (later.cursor.skipBlanks.advance 1)
            have hnext := hlast.inside ((Cursor.Passes.advance_one hpeek).inside (hskip.inside hlater))
            have hlt : (later.cursor.skipBlanks.advance 1).skipBlanks.rest.length < state.cursor.rest.length := by
              have hlength := h.length_rest
              have hlength' := hnext.length_rest
              have hafter := (hskip.trans ((Cursor.Passes.advance_one hpeek).trans hlast)).offset
              omega
            split_ifs
            · rw [run_advance_bind, run_skipBlanks_bind, run_cursor_bind, run_advance_bind,
                run_skipBlanks_bind, run_cursor_bind]
              split_ifs
              · rfl
              · exact ih hnext (by dsimp only; omega) (by dsimp only; omega)
            · rfl
            · rfl

/-- A loop comes to its end by itself: fuel beyond one round for each character left changes nothing. -/
def Ends {σ : Type} (text : List Char) (loop : Nat → σ → Reader σ) : Prop :=
  ∀ fuel done (state : ReadState), state.cursor.Inside text → state.cursor.rest.length < fuel →
    (loop fuel done).run state = (loop (state.cursor.rest.length + 1) done).run state

/-- Readers on a level never pass the end of a text. Values, tags and each round of a loop take at least
one character, a key may turn out to be none, and the loops come to their ends. -/
structure Advances (setting : Setting) (text : List Char) (inner : Inner) : Prop where
  strings : ∀ state : ReadState, state.cursor.Inside text → state.cursor.peek? = some '"' →
    Moves text 1 state (string.run state)
  values : ∀ state : ReadState, state.cursor.Inside text → Moves text 1 state ((value setting inner).run state)
  keys : ∀ state : ReadState, state.cursor.Inside text → Moves text 0 state (entryKey?.run state)
  argumentRounds : ∀ tag done (state : ReadState), state.cursor.Inside text →
    Moves text 1 state ((argument setting inner tag done).run state)
  entryRounds : ∀ done (state : ReadState), state.cursor.Inside text →
    Moves text 1 state ((entry setting inner done).run state)
  tags : ∀ nested (state : ReadState), state.cursor.Inside text → state.cursor.peek? = some '@' →
    Moves text 1 state ((tag setting inner nested).run state)
  bracePairs : ∀ state : ReadState, state.cursor.Inside text → state.cursor.peek? = some '\x7b' →
    Moves text 1 state ((braces setting inner).run state)
  argumentLoops : ∀ tag offset, Ends text
    (items ')' (fail (.unclosedArguments tag) offset) (.argumentEndExpected tag) (argument setting inner tag))
  entryLoops : ∀ offset, Ends text
    (items '\x7d' (fail .unclosedBraces offset) .braceEndExpected (entry setting inner))

/-- An entry may have blanks in front of it. -/
theorem entry_moves {inner : Inner} {depth : Nat} (hinner : inner.Accounts setting text depth)
    {done : Entries} (h : state.cursor.Inside text) :
    Moves text 1 state ((entry setting inner done).run state) := by
  obtain ⟨blanks, -, hskip⟩ := Cursor.Passes.skipBlanks state.cursor
  have hstops := Cursor.stops_skipBlanks state.cursor
  have hrun : (entry setting inner done).run state =
      (entry setting inner done).run { state with cursor := state.cursor.skipBlanks } := by
    rw [entry, run_skipBlanks_bind, run_skipBlanks_bind, Cursor.skipBlanks_of_stops hstops]
  have hconsumes : Consumes (Stop.Justified setting.constants text) state (fun _ part _ => part ≠ [])
      ((entry setting inner done).run { state with cursor := state.cursor.skipBlanks }) :=
    .behind hskip ((entry_consumes hinner (hskip.inside h) hstops).imp fun _ _ _ hfound =>
      List.append_ne_nil_of_right_ne_nil _ hfound.1)
  rw [hrun]
  exact hconsumes.moves h fun _ _ _ hpart => List.length_pos_iff.mpr hpart

theorem levels_advance (setting : Setting) (text : List Char) (depth : Nat) :
    Advances setting text (levels setting depth) := by
  have haccount := levels_account setting text depth
  have hargument (tag : String) (done : Arguments) (state : ReadState) (h : state.cursor.Inside text) :
      Moves text 1 state ((argument setting (levels setting depth) tag done).run state) :=
    (argument_consumes haccount h).moves h fun _ _ _ hfound => List.length_pos_iff.mpr hfound.1
  have hentry (done : Entries) (state : ReadState) (h : state.cursor.Inside text) :
      Moves text 1 state ((entry setting (levels setting depth) done).run state) :=
    entry_moves haccount h
  exact {
    strings := fun state h hpeek => by
      have hconsumes : Consumes (Stop.Justified setting.constants text) state _ (string.run state) :=
        string_consumes h hpeek
      refine hconsumes.moves h ?_
      rintro found part noted ⟨-, body, quoted, -, rfl, -⟩
      exact Nat.le_add_left 1 _
    values := fun state h =>
      (value_consumes haccount h).moves h fun _ _ _ hfound => List.length_pos_iff.mpr hfound.moves
    keys := fun state h => by
      have hconsumes : Consumes (Stop.Justified setting.constants text) state _ (entryKey?.run state) :=
        entryKey_consumes h
      exact hconsumes.moves h fun _ _ _ _ => Nat.zero_le _
    argumentRounds := hargument
    entryRounds := hentry
    tags := fun nested state h hpeek =>
      (tag_consumes haccount nested h hpeek).moves h fun _ _ _ hfound => List.length_pos_iff.mpr hfound.2.moves
    bracePairs := fun state h hpeek =>
      (braces_consumes haccount h hpeek).moves h fun _ _ _ hfound => List.length_pos_iff.mpr hfound.moves
    argumentLoops := fun tag _ _ _ _ h hfuel => items_fuel (hargument tag) h hfuel (Nat.lt_succ_self _)
    entryLoops := fun _ _ _ _ h hfuel => items_fuel hentry h hfuel (Nat.lt_succ_self _) }

end Reader

section Candidate

variable {setting : Setting} {text : List Char} {line : Cursor} {candidate : Candidate}

/-- A tag without arguments is read without a fault. -/
theorem topTag_bare (hcandidate : candidate? line = some candidate) (hbare : ¬ candidate.HasArguments) :
    (Reader.topTag setting).run { cursor := candidate.start } =
      .ok (⟨.text (baseName candidate.name), [], [], (setting.place candidate.start.offset).line.getD 0,
        (setting.place candidate.start.offset).column.getD 0⟩,
        { cursor := candidate.start.advance (candidate.name.length + 1) }) := by
  obtain ⟨blanks, rest, -, -, hstart, hname, hsome⟩ := candidate?_spec hcandidate
  have hempty : (tagName rest).isEmpty = false := by simpa using hsome
  have hpeek : ((candidate.start.advance (candidate.name.length + 1)).skipInlineBlanks.peek? ==
      some '(') = false := by
    simpa [Candidate.HasArguments] using hbare
  rw [hstart, hname] at hpeek
  rw [Reader.topTag, Reader.tag, Reader.run_cursor_bind, hstart, hname]
  simp only [List.drop_succ_cons, List.drop_zero, hempty, Bool.false_eq_true, if_false, Bool.false_and]
  rw [Reader.run_advance_bind, Reader.run_cursor_bind]
  simp only [hpeek, Bool.false_eq_true, if_false]
  rfl

theorem lt_nextLine (hcandidate : candidate? line = some candidate) :
    candidate.start.offset < nextLine candidate.start := by
  obtain ⟨blanks, rest, -, -, hstart, -⟩ := candidate?_spec hcandidate
  rw [hstart, nextLine, List.takeWhile_cons, if_pos (by decide)]
  simp only [List.length_cons]
  omega

theorem Cursor.Inside.nextLine_le {cursor : Cursor} (h : cursor.Inside text) :
    nextLine cursor ≤ text.length := by
  have hlength := h.length_rest
  have hle := (List.takeWhile_prefix (p := (· != '\n')) (l := cursor.rest)).length_le
  simp only [nextLine]
  split_ifs <;> omega

/-- Behind each candidate reading goes on further in the text. -/
theorem resume_of_readCandidate {outcome : Outcome} (hcandidate : candidate? line = some candidate)
    (hline : line.Within text) (h : readCandidate setting candidate = .ok outcome) :
    candidate.start.offset < outcome.resume.offset ∧ outcome.resume.offset ≤ text.length := by
  obtain ⟨hinside, hpeek⟩ := candidate?_inside hcandidate hline
  have htags := (Reader.levels_advance setting text (maxNesting - 1)).tags false
    { cursor := candidate.start } hinside hpeek
  obtain ⟨fault, offset, hfails⟩ | ⟨finish, hends⟩ := Candidate.fails_or_ends h
  · obtain rfl := Except.ok.inj (h.symm.trans (readCandidate_of_failsWith hfails))
    exact ⟨lt_nextLine hcandidate, hinside.nextLine_le⟩
  · obtain ⟨other, hother, hresume⟩ := readCandidate_of_endsAt hends
    obtain rfl := Except.ok.inj (h.symm.trans hother)
    rw [hresume]
    have hfinish : ∃ node problems,
        (Reader.topTag setting).run { cursor := candidate.start } = .ok (node, ⟨finish, problems⟩) := by
      obtain ⟨-, hrun⟩ | ⟨hbare, rfl⟩ := hends
      · exact hrun
      · exact ⟨_, _, topTag_bare hcandidate hbare⟩
    obtain ⟨node, problems, hrun⟩ := hfinish
    obtain ⟨hlater, hoffset⟩ := htags.ends _ _ hrun
    exact ⟨hoffset, hlater.le⟩

/-- Only a number in a tag keeps lines from being read. -/
theorem exists_of_readLines_error {lines : List Cursor} {resume : Resume} {number : LongNumber}
    (h : readLines setting resume lines = .error number) :
    ∃ line ∈ lines, ∃ candidate, candidate? line = some candidate ∧
      (Reader.topTag setting).run { cursor := candidate.start } = .error (.number number) := by
  induction lines generalizing resume with
  | nil => cases h
  | cons line rest ih =>
      have hlater {resume : Resume} (h : readLines setting resume rest = .error number) :
          ∃ other ∈ line :: rest, ∃ candidate, candidate? other = some candidate ∧
            (Reader.topTag setting).run { cursor := candidate.start } = .error (.number number) := by
        obtain ⟨other, hother, hrun⟩ := ih h
        exact ⟨other, List.mem_cons_of_mem _ hother, hrun⟩
      rw [readLines] at h
      split at h
      · exact hlater h
      · rename_i candidate hfilter
        obtain h | ⟨outcome, -, h⟩ := Result.bind_eq_error_iff.mp h
        · refine ⟨line, List.mem_cons_self, candidate, (Option.filter_eq_some_iff.mp hfilter).1, ?_⟩
          rw [readCandidate] at h
          split_ifs at h
          rw [readTag] at h
          split at h
          · rename_i hrun
            rw [hrun, Except.error.inj h]
          · cases h
          · cases h
        · obtain h | ⟨found, -, h⟩ := Result.bind_eq_error_iff.mp h
          · exact hlater h
          · cases h

/-- What keeps lines of a text from being read has a reason. -/
theorem justified_of_readLines {lines : List Cursor} {resume : Resume} {number : LongNumber}
    (hlines : ∀ line ∈ lines, line.Within text) (h : readLines setting resume lines = .error number) :
    Stop.Justified setting.constants text (.number number) := by
  obtain ⟨line, hline, candidate, hcandidate, hrun⟩ := exists_of_readLines_error h
  obtain ⟨hinside, hpeek⟩ := candidate?_inside hcandidate (hlines line hline)
  have hconsumes := @Reader.topTag_consumes setting text { cursor := candidate.start } hinside hpeek
  rw [hrun] at hconsumes
  cases hconsumes with
  | error hstop => exact hstop

end Candidate

/-- Parsing is total when the keys in the constants are texts: it ends with a result, unless there is a
run of digits in the text that is too long for a whole number. Readers on all levels go forward and never
pass the end of the text, a tag without arguments is always read, and behind each candidate reading goes
on further in the text. -/
theorem parse_total {constants : Constants} (hkeys : ∀ entry ∈ constants, entry.2.TextKeyed) (block : Block) :
    ((∃ nodes errors, parse constants block = .ok (nodes, errors)) ∨
      ∃ digits, digits <:+: block.text.toList ∧ (∀ c ∈ digits, isDecimal c = true) ∧
        4300 < digits.length ∧ parse constants block = .error (.numeral digits.length)) ∧
    (∀ depth, Reader.Advances ⟨constants, block.location⟩ block.text.toList
      (Reader.levels ⟨constants, block.location⟩ depth)) ∧
    ∀ line ∈ lineStarts 0 block.text.toList, ∀ candidate, candidate? line = some candidate →
      (¬ candidate.HasArguments → ∃ node,
        (Reader.topTag ⟨constants, block.location⟩).run { cursor := candidate.start } =
          .ok (node, { cursor := candidate.start.advance (candidate.name.length + 1) })) ∧
      ∀ outcome, readCandidate ⟨constants, block.location⟩ candidate = .ok outcome →
        candidate.start.offset < outcome.resume.offset ∧
          outcome.resume.offset ≤ block.text.toList.length := by
  refine ⟨?_, fun depth => Reader.levels_advance _ _ depth, fun line hline candidate hcandidate => ?_⟩
  · cases hparse : parse constants block with
    | ok found => exact .inl ⟨found.1, found.2, rfl⟩
    | error number =>
        refine .inr ?_
        obtain hlines | ⟨found, -, h⟩ := Result.bind_eq_error_iff.mp hparse
        · have hjustified : Stop.Justified constants block.text.toList (.number number) :=
            justified_of_readLines (fun line => within_of_mem_lineStarts) hlines
          cases hjustified with
          | numeral hdigits hwithin hlong => exact ⟨_, hwithin, hdigits, hlong, rfl⟩
          | key hentry hkey => exact absurd hkey (Value.ofDatum_ne_longKey _ (hkeys _ hentry))
        · cases h
  · exact ⟨fun hbare => ⟨_, topTag_bare hcandidate hbare⟩, fun outcome houtcome =>
      resume_of_readCandidate hcandidate (within_of_mem_lineStarts hline) houtcome⟩

/-- The general theorem for a text that breaks off within a string, behind a tag without arguments; a
text with so few characters has no run of digits that is too long. -/
theorem parse_total_string :
    let constants : Constants := [("LIMITS", .map [(.text "max", .number (.int 5))])]
    let block : Block :=
      { source := "api.php", symbol := .ofFile "api.php", startLine := 1, startColumn := 1, endLine := 2
        text := "@Tag\n@Get(x=\x7bLIMITS, \"a" }
    let bare : Candidate := ⟨0, ⟨0, block.text.toList⟩, "Tag".toList⟩
    (∀ entry ∈ constants, entry.2.TextKeyed) ∧
      (∃ nodes errors, parse constants block = .ok (nodes, errors)) ∧
        ∃ node, (Reader.topTag ⟨constants, block.location⟩).run { cursor := bare.start } =
          .ok (node, { cursor := bare.start.advance 4 }) := by
  intro constants block bare
  have hkeys : ∀ entry ∈ constants, entry.2.TextKeyed := by
    intro entry hentry
    obtain rfl := List.mem_singleton.mp hentry
    exact ⟨⟨"max".toList.map Char.toNat, (Datum.ofCodes_toList "max").symm⟩, trivial, trivial⟩
  obtain ⟨hends, -, hcandidates⟩ := parse_total hkeys block
  refine ⟨hkeys, ?_, ?_⟩
  · obtain hok | ⟨digits, hwithin, -, hlong, -⟩ := hends
    · exact hok
    · have hshort : block.text.toList.length < 4300 := by decide +kernel
      exact absurd (hlong.trans_le hwithin.length_le) hshort.not_gt
  · have hline : ⟨0, block.text.toList⟩ ∈ lineStarts 0 block.text.toList := by
      rw [lineStarts_eq]
      exact List.mem_cons_self
    exact (hcandidates _ hline bare (by decide +kernel)).1 (by decide +kernel)

end Annotation

end DocCompiler
