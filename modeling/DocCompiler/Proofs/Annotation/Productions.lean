import DocCompiler.Proofs.Annotation.Reading
import DocCompiler.Proofs.Annotation.Supply
import DocCompiler.Proofs.Annotation.Taking
import DocCompiler.Proofs.Annotation.Written
import Mathlib.Tactic.SplitIfs

/-!
What each reader takes of a text. Unless it notes a fault, the part that it goes over says what it finds;
when it stops, there is a reason for it in the text or in the constants.
-/

namespace DocCompiler.Annotation

open Text

/-- A reason to stop: a fault at an offset of a text, a run of digits in it that is too long, or a
constant with a key that has no text. -/
inductive Stop.Justified (constants : Constants) (text : List Char) : Stop → Prop
  | issue {issue : Issue} {offset : Nat} (hoffset : offset ≤ text.length) :
      Justified constants text (.issue issue offset)
  | numeral {digits : List Char} (hdigits : ∀ c ∈ digits, isDecimal c = true) (hwithin : digits <:+: text)
      (hlong : Number.maxDigits < digits.length) :
      Justified constants text (.number (.numeral digits.length))
  | key {entry : String × Datum} (hentry : entry ∈ constants)
      (hkey : Value.ofDatum entry.2 = .error .longKey) : Justified constants text (.number .key)

theorem Cursor.skipBlanks_of_stops {cursor : Cursor} (h : Stops isBlank cursor.rest) :
    cursor.skipBlanks = cursor :=
  Cursor.skipWhile_of_stops h

theorem IsWord.written {constants : Constants} {value : Value} {text : List Char}
    (h : IsWord constants value text) (htag : ∀ node, value ≠ .tag node) : value.Written constants text := by
  cases value with
  | leaf kind data => exact h
  | array items => exact .inl h
  | mapping entries => exact .inl h
  | tag node => exact absurd rfl (htag node)

section Numerals

variable {text : List Char}

theorem mantissa_eq_digitRun (h : '.' ∉ mantissa text) : mantissa text = digitRun text := by
  rw [mantissa] at h ⊢
  dsimp only at h ⊢
  split at h
  · split_ifs at h ⊢ with hempty
    · simp only [Bool.and_eq_true, List.isEmpty_iff] at hempty
      exact hempty.1.symm
    · simp at h
  · rfl

theorem exponent_eq_nil (he : 'e' ∉ exponent text) (hE : 'E' ∉ exponent text) : exponent text = [] := by
  cases text with
  | nil => rfl
  | cons c rest =>
      rw [exponent] at he hE ⊢
      dsimp only at he hE ⊢
      split_ifs at he hE ⊢ with hc
      · rfl
      · simp only [Bool.or_eq_true, beq_iff_eq] at hc
        obtain rfl | rfl := hc
        · simp at he
        · simp at hE
      · rfl

theorem signMark_cases (text : List Char) :
    ∃ negative, negative = true ∧ signMark text = ['-'] ∨
      negative = false ∧ (signMark text = [] ∨ signMark text = ['+']) := by
  unfold signMark
  split
  · exact ⟨true, .inl ⟨rfl, rfl⟩⟩
  · exact ⟨false, .inr ⟨rfl, .inr rfl⟩⟩
  · exact ⟨false, .inr ⟨rfl, .inl rfl⟩⟩

/-- A numeral has no value only where it has too many digits. -/
theorem exists_digits_of_numeralValue {stop : Stop} (h : Reader.numeralValue (numeral text) = .error stop) :
    ∃ digits, (∀ c ∈ digits, isDecimal c = true) ∧ digits <:+: text ∧ Number.maxDigits < digits.length ∧
      stop = .number (.numeral digits.length) := by
  obtain ⟨negative, hsign⟩ := signMark_cases text
  have hnumeral : numeral text = if (mantissa (text.drop (signMark text).length)).isEmpty then []
      else signMark text ++ mantissa (text.drop (signMark text).length) ++
        exponent (text.drop (signMark text ++ mantissa (text.drop (signMark text).length)).length) := rfl
  generalize signMark text = sign at hsign hnumeral
  simp only [Reader.numeralValue] at h
  split_ifs at h with hmark
  rw [hnumeral] at h hmark
  split_ifs at h hmark with hempty
  · cases h
  simp only [Bool.not_eq_true, List.any_eq_false, Bool.or_eq_true, beq_iff_eq, List.mem_append] at hmark
  have hbody : mantissa (text.drop sign.length) = digitRun (text.drop sign.length) :=
    mantissa_eq_digitRun fun hmem => hmark _ (.inl (.inr hmem)) (.inl (.inl rfl))
  rw [exponent_eq_nil (fun hmem => hmark _ (.inr hmem) (.inl (.inr rfl)))
    (fun hmem => hmark _ (.inr hmem) (.inr rfl)), List.append_nil, hbody] at h
  have hsome : digitRun (text.drop sign.length) ≠ [] := by simpa [hbody] using hempty
  have hdigits : ∀ c ∈ digitRun (text.drop sign.length), isDecimal c = true :=
    List.all_eq_true.mp List.all_takeWhile
  rw [(signMark_append hsign hdigits hsome []).2] at h
  refine ⟨_, hdigits, (List.takeWhile_prefix _).isInfix.trans (List.drop_suffix _ _).isInfix, ?_⟩
  simp only [Number.ofDigits] at h
  split_ifs at h with hlong
  exact ⟨hlong, (Except.error.inj h).symm⟩

end Numerals

/-- What reading of a value gives: unless a fault is noted, the part that is gone over says the value,
and it nests in the levels that are left. Constants may nest deeper than what is written. -/
structure Value.Taken (constants : Constants) (depth : Nat) (value : Value) (part : List Char)
    (noted : List (Issue × Nat)) : Prop where
  moves : part ≠ []
  written : noted = [] → value.Written constants part
  nesting : noted = [] → constants = [] → value.nesting ≤ depth

theorem Value.Taken.of_noted {constants : Constants} {depth : Nat} {value : Value} {part : List Char}
    {noted : List (Issue × Nat)} (hmoves : part ≠ []) (hnoted : noted ≠ []) :
    value.Taken constants depth part noted :=
  ⟨hmoves, fun h => absurd h hnoted, fun h => absurd h hnoted⟩

/-- What reading of a tag gives. Only of a nested tag is it noted when it is not known. -/
structure Node.Taken (constants : Constants) (depth : Nat) (nested : Bool) (node : Node)
    (part : List Char) (noted : List (Issue × Nat)) : Prop where
  moves : part ≠ []
  known : nested = true → noted = [] → node.IsKnown
  written : noted = [] → node.Written constants part
  nesting : noted = [] → constants = [] → node.nesting ≤ depth

namespace Reader

/-- Arguments are what texts say, one by one. -/
structure Arguments.Written (constants : Constants) (depth : Nat) (done : Arguments)
    (pieces : List (List Char)) : Prop where
  distinct : (done.attributes.map (·.1)).Nodup
  texts : ∃ parts nested, Value.EntriesWritten constants SpellsName ['='] done.attributes parts ∧
    Node.EachWritten constants done.children nested ∧ Interleaved parts nested pieces
  attributes : constants = [] → ∀ entry ∈ done.attributes, entry.2.nesting ≤ depth
  children : constants = [] → ∀ child ∈ done.children, child.nesting ≤ depth

/-- The items and entries of braces are what texts say, one by one. -/
structure Entries.Written (constants : Constants) (depth : Nat) (done : Entries)
    (pieces : List (List Char)) : Prop where
  texts : ∃ parts keyed, Value.EachWritten constants done.items parts ∧
    Value.EntriesWritten constants IsKey [':', '='] done.entries keyed ∧ Interleaved parts keyed pieces
  items : constants = [] → ∀ item ∈ done.items, item.nesting ≤ depth
  entries : constants = [] → ∀ entry ∈ done.entries, entry.2.nesting ≤ depth

variable {setting : Setting} {text : List Char} {depth : Nat} {inner : Inner} {state : ReadState}
  {constants : Constants} {pieces : List (List Char)} {part : List Char} {given : Value}

/-- The readers of nested tags and of braces account for the text that they go over. -/
structure Inner.Accounts (setting : Setting) (text : List Char) (depth : Nat) (inner : Inner) : Prop where
  tag : ∀ state : ReadState, state.cursor.Inside text → state.cursor.peek? = some '@' →
    Consumes (Stop.Justified setting.constants text) state (Node.Taken setting.constants depth true)
      (inner.tag.run state)
  braces : ∀ state : ReadState, state.cursor.Inside text → state.cursor.peek? = some '\x7b' →
    Consumes (Stop.Justified setting.constants text) state (Value.Taken setting.constants depth)
      (inner.braces.run state)

theorem string_consumes (h : state.cursor.Inside text)
    (hpeek : state.cursor.peek? = some '"') :
    Consumes (Stop.Justified constants text) state (fun found part noted => noted = [] ∧
      ∃ body quoted, found = String.ofList body ∧ part = '"' :: quoted ∧ IsQuoted body quoted)
      (string.run state) := by
  obtain ⟨rest, hrest⟩ := List.head?_eq_some_iff.mp hpeek
  rw [string, run_cursor_bind, hrest, List.drop_succ_cons, List.drop_zero]
  split
  · exact .error (.issue h.le)
  · rename_i body used hbody
    have hlength : (rest.take used).length = used := by
      rw [List.length_take, Nat.min_eq_left (stringBody_le hbody).2]
    have hpasses : state.cursor.Passes (state.cursor.advance (used + 1)) ('"' :: rest.take used) := by
      have hfront : '"' :: rest.take used <+: state.cursor.rest := by
        rw [hrest]
        exact List.cons_prefix_cons.mpr ⟨rfl, List.take_prefix _ _⟩
      simpa [hlength] using Cursor.Passes.of_isPrefix hfront
    rw [run_advance_bind]
    refine .behind hpasses (.pure ⟨rfl, body, rest.take used, rfl, List.append_nil _, rest.drop used, ?_⟩)
    rw [List.take_append_drop, hlength, hbody]

theorem numeralValue_consumes (h : state.cursor.Inside text) {literal : List Char}
    (hliteral : literal = numeral state.cursor.rest) (hsome : literal ≠ []) :
    Consumes (Stop.Justified setting.constants text) state (Value.Taken setting.constants depth)
      ((numeralValue literal : Reader Value).run
        { state with cursor := state.cursor.advance literal.length }) := by
  have hfront := hliteral ▸ numeral_isPrefix state.cursor.rest
  have hpasses := Cursor.Passes.of_isPrefix hfront
  have hsuffix : state.cursor.rest <:+ text := h.within ▸ List.drop_suffix _ _
  change Consumes _ _ _ (numeralValue literal >>= fun value => pure (value, _))
  cases hvalue : numeralValue literal with
  | error stop =>
      rw [hliteral] at hvalue
      obtain ⟨digits, hdigits, hwithin, hlong, rfl⟩ := exists_digits_of_numeralValue hvalue
      exact .error (.numeral hdigits (hwithin.trans hsuffix.isInfix) hlong)
  | ok value =>
      obtain ⟨number, rfl⟩ := exists_number_of_numeralValue hvalue
      obtain ⟨behind, hbehind⟩ := hfront
      have htext : numeral (literal ++ behind) = literal := by rw [hbehind, hliteral]
      exact .ok hpasses (List.append_nil _).symm
        ⟨hsome, fun _ => .numeral htext hsome hvalue, fun _ _ => Nat.zero_le _⟩

theorem nesting_of_wordValue {word : String} {value : Value} (h : wordValue [] word = .ok value) :
    value.nesting = 0 := by
  simp only [wordValue] at h
  split_ifs at h <;> (obtain rfl := Except.ok.inj h; rfl)

theorem ne_tag_of_wordValue {word : String} {value : Value}
    (h : wordValue constants word = .ok value) (node : Node) : value ≠ .tag node := by
  rintro rfl
  exact (wordValue_tags (p := fun _ => False) h).self

/-- A word whose value cannot be lifted is a constant of the table. -/
theorem exists_constant_of_error {word : String} {error : Value.LiftError}
    (h : wordValue constants word = .error error) :
    ∃ datum, constants.get? word = some datum ∧ Value.ofDatum datum = .error error := by
  simp only [wordValue] at h
  split_ifs at h
  split at h
  · cases h
  · rename_i datum hget
    exact ⟨datum, hget, h⟩

theorem value_consumes (hinner : inner.Accounts setting text depth) (h : state.cursor.Inside text) :
    Consumes (Stop.Justified setting.constants text) state (Value.Taken setting.constants depth)
      ((value setting inner).run state) := by
  rw [value, run_cursor_bind]
  split
  · exact .error (.issue h.le)
  · rename_i hpeek
    refine (string_consumes h hpeek).bind fun found later part noted _ hfound => .pure ?_
    obtain ⟨rfl, body, quoted, rfl, rfl, hquoted⟩ := hfound
    rw [List.append_nil]
    exact ⟨List.cons_ne_nil _ _, fun _ => .quoted hquoted, fun _ _ => Nat.zero_le _⟩
  · rename_i hpeek
    exact hinner.braces state h hpeek
  · rename_i hpeek
    refine (hinner.tag state h hpeek).bind fun node later part noted _ hnode => .pure ?_
    rw [List.append_nil, List.append_nil]
    exact ⟨hnode.moves, fun hnoted => ⟨hnode.known rfl hnoted, hnode.written hnoted⟩, hnode.nesting⟩
  · dsimp only
    split_ifs with hnumeral hword
    · rw [run_advance_bind]
      exact numeralValue_consumes h rfl (by simpa using hnumeral)
    · exact .error (.issue h.le)
    · rw [run_advance_bind]
      split
      · rename_i found hfound
        have hfront := identifier_isPrefix state.cursor.rest
        refine .behind (.of_isPrefix hfront) (.pure ?_)
        obtain ⟨behind, hbehind⟩ := hfront
        have hsome : identifier state.cursor.rest ≠ [] := by simpa using hword
        have htext : identifier (identifier state.cursor.rest ++ behind) = identifier state.cursor.rest :=
          congrArg identifier hbehind
        rw [List.append_nil]
        refine ⟨hsome, fun _ => ?_, fun _ hempty => ?_⟩
        · exact IsWord.written (.identifier htext hsome hfound) (ne_tag_of_wordValue hfound)
        · rw [hempty] at hfound
          exact (nesting_of_wordValue hfound).trans_le (Nat.zero_le _)
      · exact .error (.issue h.le)
      · rename_i hlong
        obtain ⟨datum, hget, hkey⟩ := exists_constant_of_error hlong
        exact .error (.key (OrderedMap.mem_of_get? hget) hkey)

section List

variable {σ : Type} {close : Char} {unclosed : Reader σ}
  {endExpected : Char → Issue} {item : σ → Reader σ} {tells : σ → List (List Char) → Prop}
  (hunclosed : ∀ state, ∃ stop, Stop.Justified constants text stop ∧ unclosed.run state = .error stop)
  (hitem : ∀ done (state : ReadState), state.cursor.Inside text → Stops isBlank state.cursor.rest →
    Consumes (Stop.Justified constants text) state (fun found part noted => part ≠ [] ∧
      (noted = [] → ∀ pieces, tells done pieces → tells found (pieces ++ [part]))) ((item done).run state))

include hunclosed hitem

/-- Items are what the texts between the commas say. -/
theorem items_consumes {fuel : Nat} {done : σ} (h : state.cursor.Inside text)
    (hstops : Stops isBlank state.cursor.rest) :
    Consumes (Stop.Justified constants text) state (fun found part noted => noted = [] →
      ∀ pieces, tells done pieces → ∃ more, Listed close more part ∧ tells found (pieces ++ more))
      ((items close unclosed endExpected item fuel done).run state) := by
  induction fuel generalizing done state with
  | zero =>
      obtain ⟨stop, hstop, hrun⟩ := hunclosed state
      rw [items, hrun]
      exact .error hstop
  | succ fuel ih =>
      rw [items]
      refine (hitem done state h hstops).bind fun found later part noted hpart hfound => ?_
      obtain ⟨-, hfound⟩ := hfound
      obtain ⟨blanks, hblanks, hbehind⟩ := Cursor.Passes.skipBlanks later.cursor
      have hblank := hbehind.inside (hpart.inside h)
      rw [run_skipBlanks_bind, run_cursor_bind]
      refine .behind hbehind ?_
      split
      · obtain ⟨stop, hstop, hrun⟩ := hunclosed { later with cursor := later.cursor.skipBlanks }
        rw [hrun]
        exact .error hstop
      · rename_i c hpeek
        have hmark := Cursor.Passes.advance_one hpeek
        split_ifs with hcomma hend
        · obtain rfl : c = ',' := by simpa using hcomma
          obtain ⟨more, hmore, hskip⟩ := Cursor.Passes.skipBlanks (later.cursor.skipBlanks.advance 1)
          rw [run_advance_bind, run_skipBlanks_bind, run_cursor_bind]
          refine .behind hmark (.behind hskip ?_)
          split_ifs with htrailing
          · refine .behind (.advance_one (by simpa using htrailing)) (.pure fun hnoted pieces htells => ?_)
            rw [List.append_nil] at hnoted
            exact ⟨[part], .trailing hblanks hmore, hfound hnoted pieces htells⟩
          · refine (ih (hskip.inside (hmark.inside hblank)) (Cursor.stops_skipBlanks _)).imp ?_
            intro last rest others hlast hnoted pieces htells
            obtain ⟨rfl, rfl⟩ := List.append_eq_nil_iff.mp hnoted
            obtain ⟨others, hlisted, hall⟩ := hlast rfl _ (hfound rfl pieces htells)
            rw [List.append_assoc] at hall
            have hnext : Listed close (part :: others) (part ++ (blanks ++ ',' :: (more ++ rest))) :=
              .next hblanks hmore hlisted
            exact ⟨part :: others, hnext, hall⟩
        · obtain rfl : c = close := by simpa using hend
          rw [run_advance_bind]
          refine .behind hmark (.pure fun hnoted pieces htells => ?_)
          rw [List.append_nil] at hnoted
          exact ⟨[part], .last hblanks, hfound hnoted pieces htells⟩
        · exact .error (.issue hblank.le)

theorem list_consumes {opening : Char} {empty : σ} (h : state.cursor.Inside text)
    (hpeek : state.cursor.peek? = some opening) (hempty : tells empty []) :
    Consumes (Stop.Justified constants text) state (fun found part noted => part ≠ [] ∧
      (noted = [] → ∃ pieces, Enclosed opening close pieces part ∧ tells found pieces))
      ((list close unclosed endExpected item empty).run state) := by
  have hopening := Cursor.Passes.advance_one hpeek
  obtain ⟨blanks, hblanks, hskip⟩ := Cursor.Passes.skipBlanks (state.cursor.advance 1)
  rw [list, run_advance_bind, run_skipBlanks_bind, run_cursor_bind]
  refine .behind hopening (.behind hskip ?_)
  split_ifs with hclose
  · rw [run_advance_bind]
    exact .behind (.advance_one (by simpa using hclose))
      (.pure ⟨List.cons_ne_nil _ _, fun _ => ⟨[], .empty hblanks, hempty⟩⟩)
  · refine (items_consumes hunclosed hitem (hskip.inside (hopening.inside h))
      (Cursor.stops_skipBlanks _)).imp fun found part noted hfound => ?_
    refine ⟨List.cons_ne_nil _ _, fun hnoted => ?_⟩
    obtain ⟨pieces, hlisted, htells⟩ := hfound hnoted [] hempty
    have hall : Enclosed opening close pieces (opening :: (blanks ++ part)) := .list hblanks hlisted
    exact ⟨pieces, hall, htells⟩

end List

/-- Arguments with one more attribute. -/
theorem Arguments.Written.attribute {done : Arguments} {name text : List Char}
    (h : Arguments.Written constants depth done pieces)
    (hnew : done.attributes.any (·.1.isText (String.ofList name)) = false)
    (hwritten : given.Written constants text) (hnesting : constants = [] → given.nesting ≤ depth)
    (hkeyed : Keyed SpellsName ['='] (.text (String.ofList name)) text part) :
    Arguments.Written constants depth
      { done with attributes := done.attributes ++ [(.text (String.ofList name), given)] }
      (pieces ++ [part]) := by
  obtain ⟨parts, nested, hparts, hnested, hpieces⟩ := h.texts
  refine ⟨?_, ⟨_, _, Value.entriesWritten_append hparts hwritten hkeyed, hnested, hpieces.left_append⟩,
    fun hempty => ?_, h.children⟩
  · rw [List.map_append, List.nodup_append]
    refine ⟨h.distinct, List.nodup_singleton _, ?_⟩
    rintro key hkey other hother rfl
    obtain ⟨entry, hentry, rfl⟩ := List.mem_map.mp hkey
    exact List.any_eq_false.mp hnew entry hentry (Datum.isText_iff.mpr (List.mem_singleton.mp hother))
  · exact List.forall_mem_append.mpr
      ⟨h.attributes hempty, List.forall_mem_singleton.mpr (hnesting hempty)⟩

/-- Arguments with one more nested tag. -/
theorem Arguments.Written.child {done : Arguments} {node : Node} {noted : List (Issue × Nat)}
    (h : Arguments.Written constants depth done pieces) (hnode : node.Taken constants depth true part noted)
    (hnoted : noted = []) :
    Arguments.Written constants depth { done with children := done.children ++ [node] }
      (pieces ++ [part]) := by
  obtain ⟨parts, nested, hparts, hnested, hpieces⟩ := h.texts
  refine ⟨h.distinct, ⟨_, _, hparts, ?_, hpieces.right_append⟩, h.attributes, fun hempty => ?_⟩
  · exact Node.eachWritten_append hnested (hnode.known rfl hnoted) (hnode.written hnoted)
  · exact List.forall_mem_append.mpr
      ⟨h.children hempty, List.forall_mem_singleton.mpr (hnode.nesting hnoted hempty)⟩

theorem argument_consumes (hinner : inner.Accounts setting text depth) {tag : String} {done : Arguments}
    (h : state.cursor.Inside text) :
    Consumes (Stop.Justified setting.constants text) state (fun found part noted => part ≠ [] ∧
      (noted = [] → ∀ pieces, Arguments.Written setting.constants depth done pieces →
        Arguments.Written setting.constants depth found (pieces ++ [part])))
      ((argument setting inner tag done).run state) := by
  rw [argument, run_cursor_bind]
  dsimp only
  split
  · rename_i hchild
    refine (hinner.tag state h (by simpa using hchild)).bind fun node later part noted _ hnode => .pure ?_
    rw [List.append_nil, List.append_nil]
    exact ⟨hnode.moves, fun hnoted pieces hdone => hdone.child hnode hnoted⟩
  · split
    · rename_i hkey
      simp only [Bool.and_eq_true, Bool.not_eq_true', List.isEmpty_eq_false_iff, beq_iff_eq] at hkey
      obtain ⟨hsome, hequals⟩ := hkey
      obtain hempty | ⟨name, rest, hrest, hread, hname⟩ := simpleName_spec state.cursor.rest
      · exact absurd hempty hsome
      rw [hrest, hread] at hequals ⊢
      obtain ⟨before, after, hbefore, hafter, hlead⟩ := Cursor.Passes.named ⟨rest, hrest.symm⟩ hequals
      rw [run_moveTo_bind]
      refine .behind hlead ((value_consumes hinner (hlead.inside h)).bind fun given later part noted _ hgiven => ?_)
      split_ifs with hany
      · refine .noted (.pure ⟨?_, fun hnoted => ?_⟩)
        · simp
        · simp at hnoted
      · refine .pure ⟨by simp, fun hnoted pieces hdone => ?_⟩
        rw [List.append_nil] at hnoted ⊢
        have hkeyed : Keyed SpellsName ['='] (.text (String.ofList name)) part
            (name ++ (before ++ '=' :: after) ++ part) := by
          simpa using Keyed.intro (.bare hname) hbefore List.mem_cons_self hafter
        exact hdone.attribute (by simpa using hany) (hgiven.written hnoted) (hgiven.nesting hnoted) hkeyed
    · refine (value_consumes hinner h).bind fun given later part noted _ hgiven => ?_
      refine .noted (.pure ⟨?_, fun hnoted => ?_⟩)
      · rw [List.append_nil]
        exact hgiven.moves
      · simp at hnoted

/-- What is taken of a text where a key may stand: a key with the mark behind it, or nothing. -/
inductive KeyTaken : Option String → List Char → Prop
  | none : KeyTaken none []
  | some {text : String} {name before : List Char} {mark : Char} (hname : IsKey (.text text) name)
      (hbefore : ∀ c ∈ before, isBlank c = true) (hmark : mark ∈ [':', '=']) :
      KeyTaken (some text) (name ++ (before ++ [mark]))

/-- Reading goes on behind the mark of a key, or back to the start. -/
theorem keyBehind_consumes {stops : Stop → Prop} {later : ReadState} {key : Option String} {name : List Char}
    (hname : state.cursor.Passes later.cursor name) (hproblems : later.problems = state.problems)
    (hkey : ∀ text, key = some text → IsKey (.text text) name) :
    Consumes stops state (fun found part noted => KeyTaken found part ∧ noted = [])
      ((keyBehind state.cursor key).run later) := by
  have hnoted : later.problems = state.problems ++ [] := hproblems.trans (List.append_nil _).symm
  obtain ⟨before, hbefore, hskip⟩ := Cursor.Passes.skipBlanks later.cursor
  rw [keyBehind, run_cursor_bind]
  dsimp only
  split
  · exact .ok (.refl _) hnoted ⟨.none, rfl⟩
  · rename_i text c rest _ hrest
    split_ifs with hmark
    · have hlast := hskip.trans (.advance_one (List.head?_eq_some_iff.mpr ⟨rest, hrest⟩))
      exact .ok (hname.trans hlast) hnoted ⟨.some (hkey text rfl) hbefore (by simpa using hmark), rfl⟩
    · exact .ok (.refl _) hnoted ⟨.none, rfl⟩
  · exact .ok (.refl _) hnoted ⟨.none, rfl⟩

theorem entryKey_consumes (h : state.cursor.Inside text) :
    Consumes (Stop.Justified constants text) state (fun found part noted => KeyTaken found part ∧ noted = [])
      (entryKey?.run state) := by
  rw [entryKey?_eq, run_cursor_bind]
  split_ifs with hquote
  · have hstring : Consumes (Stop.Justified constants text) state _ (string.run state) :=
      string_consumes h (by simpa using hquote)
    rw [StateT.run_bind]
    generalize string.run state = result at hstring
    cases hstring with
    | error hstop => exact .error hstop
    | ok hpart hnoted hfound =>
        obtain ⟨rfl, body, quoted, rfl, rfl, hquoted⟩ := hfound
        refine keyBehind_consumes hpart (hnoted.trans (List.append_nil _)) fun text htext => ?_
        rw [← Option.some.inj htext]
        exact .quoted hquoted
  · rw [run_advance_bind]
    refine keyBehind_consumes (.of_isPrefix (simpleName_isPrefix _)) rfl fun text htext => ?_
    obtain hempty | ⟨name, rest, hrest, hread, hname⟩ := simpleName_spec state.cursor.rest
    · simp [hempty] at htext
    · rw [hrest, hread] at htext ⊢
      obtain ⟨-, htext⟩ := Option.ite_none_left_eq_some.mp htext
      rw [← Option.some.inj htext]
      exact .bare hname

/-- Braces with one more item. -/
theorem Entries.Written.item {done : Entries} (h : Entries.Written constants depth done pieces)
    (hwritten : given.Written constants part) (hnesting : constants = [] → given.nesting ≤ depth) :
    Entries.Written constants depth { done with items := done.items ++ [given] } (pieces ++ [part]) := by
  obtain ⟨parts, keyed, hparts, hkeyed, hpieces⟩ := h.texts
  refine ⟨⟨_, _, Value.eachWritten_append hparts hwritten, hkeyed, hpieces.left_append⟩,
    fun hempty => ?_, h.entries⟩
  exact List.forall_mem_append.mpr ⟨h.items hempty, List.forall_mem_singleton.mpr (hnesting hempty)⟩

/-- Braces with one more entry. -/
theorem Entries.Written.entry {done : Entries} {key : Datum} {text : List Char}
    (h : Entries.Written constants depth done pieces)
    (hwritten : given.Written constants text) (hnesting : constants = [] → given.nesting ≤ depth)
    (hkeyed : Keyed IsKey [':', '='] key text part) :
    Entries.Written constants depth { done with entries := done.entries ++ [(key, given)] }
      (pieces ++ [part]) := by
  obtain ⟨parts, keyed, hparts, hentries, hpieces⟩ := h.texts
  refine ⟨⟨_, _, hparts, Value.entriesWritten_append hentries hwritten hkeyed, hpieces.right_append⟩,
    h.items, fun hempty => ?_⟩
  exact List.forall_mem_append.mpr ⟨h.entries hempty, List.forall_mem_singleton.mpr (hnesting hempty)⟩

theorem entry_consumes (hinner : inner.Accounts setting text depth) {done : Entries}
    (h : state.cursor.Inside text) (hstops : Stops isBlank state.cursor.rest) :
    Consumes (Stop.Justified setting.constants text) state (fun found part noted => part ≠ [] ∧
      (noted = [] → ∀ pieces, Entries.Written setting.constants depth done pieces →
        Entries.Written setting.constants depth found (pieces ++ [part])))
      ((entry setting inner done).run state) := by
  rw [entry, run_skipBlanks_bind, Cursor.skipBlanks_of_stops hstops]
  refine (entryKey_consumes h).bind fun key later lead noted hlead hkey => ?_
  obtain ⟨hkey, rfl⟩ := hkey
  obtain ⟨blanks, hblanks, hskip⟩ := Cursor.Passes.skipBlanks later.cursor
  have hmoved := hskip.inside (hlead.inside h)
  rw [run_skipBlanks_bind]
  cases hkey with
  | none =>
      -- The reader is back at the start, which is no blank.
      have hback : later.cursor.skipBlanks = later.cursor := by
        refine Cursor.skipBlanks_of_stops ?_
        rwa [← List.nil_append later.cursor.rest, ← hlead.rest]
      rw [hback] at hmoved ⊢
      refine (value_consumes hinner hmoved).bind fun given last part noted _ hgiven => .pure ?_
      rw [List.append_nil, List.append_nil]
      exact ⟨hgiven.moves, fun hnoted pieces hdone =>
        hdone.item (hgiven.written hnoted) (hgiven.nesting hnoted)⟩
  | @some key name before mark hname hbefore hmark =>
      refine .behind hskip ((value_consumes hinner hmoved).bind fun given last part noted _ hgiven => .pure ?_)
      rw [List.append_nil, List.append_nil]
      refine ⟨by simp, fun hnoted pieces hdone => ?_⟩
      have hkeyed : Keyed IsKey [':', '='] (.text key) part
          (name ++ (before ++ [mark]) ++ (blanks ++ part)) := by
        simpa using Keyed.intro hname hbefore hmark hblanks
      exact hdone.entry (hgiven.written hnoted) (hgiven.nesting hnoted) hkeyed

/-- Braces without keys are an array of what stands in them. -/
theorem Entries.Written.array {done : Entries} (h : Entries.Written constants depth done pieces)
    (hpure : done.entries = []) (hpart : Enclosed '\x7b' '\x7d' pieces part) :
    (Value.array done.items).Written constants part ∧
      (constants = [] → (Value.array done.items).nesting ≤ depth + 1) := by
  obtain ⟨parts, keyed, hparts, hkeyed, hpieces⟩ := h.texts
  rw [hpure] at hkeyed
  obtain rfl : keyed = [] := hkeyed
  obtain rfl := hpieces.eq_of_right_nil
  refine ⟨.inr ⟨_, hparts, hpart⟩, fun hempty => ?_⟩
  rw [Value.nesting, Nat.add_comm, Nat.add_le_add_iff_right]
  exact Value.nestingOfItems_le_iff.mpr (h.items hempty)

/-- Braces in which all has a key are a mapping of what stands in them. -/
theorem Entries.Written.mapping {done : Entries} (h : Entries.Written constants depth done pieces)
    (hpure : done.items = []) (hsome : done.entries ≠ []) (hpart : Enclosed '\x7b' '\x7d' pieces part) :
    (Value.mapping done.entries).Written constants part ∧
      (constants = [] → (Value.mapping done.entries).nesting ≤ depth + 1) := by
  obtain ⟨parts, keyed, hparts, hkeyed, hpieces⟩ := h.texts
  rw [hpure] at hparts
  obtain rfl : parts = [] := hparts
  obtain rfl := hpieces.eq_of_left_nil
  refine ⟨.inr ⟨hsome, _, hkeyed, hpart⟩, fun hempty => ?_⟩
  rw [Value.nesting, Nat.add_comm, Nat.add_le_add_iff_right]
  exact Value.nestingOfEntries_le_iff.mpr (h.entries hempty)

theorem braces_consumes (hinner : inner.Accounts setting text depth) (h : state.cursor.Inside text)
    (hpeek : state.cursor.peek? = some '\x7b') :
    Consumes (Stop.Justified setting.constants text) state (Value.Taken setting.constants (depth + 1))
      ((braces setting inner).run state) := by
  have hlist : Consumes (Stop.Justified setting.constants text) state (fun found part noted => part ≠ [] ∧
      (noted = [] → ∃ pieces, Enclosed '\x7b' '\x7d' pieces part ∧
        Entries.Written setting.constants depth found pieces))
      ((list '\x7d' (fail .unclosedBraces state.cursor.offset) .braceEndExpected
        (entry setting inner) {}).run state) :=
    list_consumes (fun _ => ⟨_, .issue h.le, rfl⟩) (fun _ _ h hstops => entry_consumes hinner h hstops) h hpeek
      ⟨⟨[], [], rfl, rfl, .nil⟩, fun _ => List.forall_mem_nil _, fun _ => List.forall_mem_nil _⟩
  rw [braces, run_cursor_bind]
  refine hlist.bind fun found later part noted _ hfound => ?_
  obtain ⟨hmoves, hfound⟩ := hfound
  have hmixed {result : Value} : Value.Taken setting.constants (depth + 1) result (part ++ [])
      (noted ++ [(.mixedBraces, state.cursor.offset)]) :=
    .of_noted (by simpa using hmoves) (by simp)
  split_ifs with hentries hboth hboth
  · exact .noted (.pure hmixed)
  · refine .pure ?_
    rw [List.append_nil, List.append_nil]
    have harray (hnoted : noted = []) := (hfound hnoted).elim fun pieces hpieces =>
      hpieces.2.array (List.isEmpty_iff.mp hentries) hpieces.1
    exact ⟨hmoves, fun hnoted => (harray hnoted).1, fun hnoted => (harray hnoted).2⟩
  · exact .noted (.pure hmixed)
  · refine .pure ?_
    rw [List.append_nil, List.append_nil]
    have hsome : found.entries ≠ [] := by simpa using hentries
    have hitems : found.items = [] := by simpa [hsome] using hboth
    have hmapping (hnoted : noted = []) := (hfound hnoted).elim fun pieces hpieces =>
      hpieces.2.mapping hitems hsome hpieces.1
    exact ⟨hmoves, fun hnoted => (hmapping hnoted).1, fun hnoted => (hmapping hnoted).2⟩

/-- What is made of a tag behind its name. -/
def tagBehind (setting : Setting) (inner : Inner) (tag : String) (offset : Nat) : Reader Node := do
  let opening := (← cursor).skipInlineBlanks
  let arguments ←
    if opening.peek? == some '(' then do
      moveTo opening
      list ')' (fail (.unclosedArguments tag) opening.offset) (.argumentEndExpected tag)
        (argument setting inner tag) {}
    else pure {}
  let place := setting.place offset
  return { tag := .text tag, attributes := arguments.attributes, children := arguments.children,
           line := place.line.getD 0, column := place.column.getD 0 }

theorem tagBehind_consumes (hinner : inner.Accounts setting text depth) {tag : String} {offset : Nat}
    (h : state.cursor.Inside text) :
    Consumes (Stop.Justified setting.constants text) state (fun node part noted =>
      node.tag = .text tag ∧ (noted = [] → ∀ base name, tag = String.ofList base → IsTagName base name →
        node.Written setting.constants ('@' :: (name ++ part)) ∧
          (setting.constants = [] → node.nesting ≤ depth + 1)))
      ((tagBehind setting inner tag offset).run state) := by
  obtain ⟨blanks, hblanks, hskip⟩ := Cursor.Passes.skipInlineBlanks state.cursor
  have hopening := hskip.inside h
  rw [tagBehind, run_cursor_bind]
  dsimp only
  split_ifs with hpeek
  · rw [run_moveTo_bind]
    have hlist : Consumes (Stop.Justified setting.constants text)
        { state with cursor := state.cursor.skipInlineBlanks } (fun found part noted => part ≠ [] ∧
          (noted = [] → ∃ pieces, Enclosed '(' ')' pieces part ∧
            Arguments.Written setting.constants depth found pieces))
        ((list ')' (fail (.unclosedArguments tag) state.cursor.skipInlineBlanks.offset)
          (.argumentEndExpected tag) (argument setting inner tag) {}).run
            { state with cursor := state.cursor.skipInlineBlanks }) :=
      list_consumes (fun _ => ⟨_, .issue hopening.le, rfl⟩) (fun _ _ h _ => argument_consumes hinner h) hopening
        (by simpa using hpeek) ⟨List.nodup_nil, ⟨[], [], rfl, rfl, .nil⟩,
          fun _ => List.forall_mem_nil _, fun _ => List.forall_mem_nil _⟩
    refine .behind hskip (hlist.bind fun arguments later part noted _ hfound => .pure ⟨rfl, ?_⟩)
    rintro hnoted base name rfl hname
    rw [List.append_nil] at hnoted ⊢
    obtain ⟨pieces, hpieces, hwritten⟩ := hfound.2 hnoted
    obtain ⟨parts, nested, hparts, hnested, hall⟩ := hwritten.texts
    refine ⟨⟨hwritten.distinct, base, name, rfl, hname, .inr ?_⟩, fun hempty => ?_⟩
    · exact ⟨blanks, parts, nested, pieces, part, hblanks, hparts, hnested, hall, hpieces, rfl⟩
    · rw [Node.nesting, Nat.add_comm, Nat.add_le_add_iff_right, Nat.max_le]
      exact ⟨Value.nestingOfEntries_le_iff.mpr (hwritten.attributes hempty),
        Node.nestingOfNodes_le_iff.mpr (hwritten.children hempty)⟩
  · refine .pure ⟨rfl, ?_⟩
    rintro - base name rfl hname
    refine ⟨⟨List.nodup_nil, base, name, rfl, hname, .inl ⟨rfl, rfl, by simp⟩⟩, fun _ => ?_⟩
    exact Nat.le_add_left 1 depth

theorem tag_consumes (hinner : inner.Accounts setting text depth) (nested : Bool)
    (h : state.cursor.Inside text) (hpeek : state.cursor.peek? = some '@') :
    Consumes (Stop.Justified setting.constants text) state (fun node part noted =>
      node.tag = .text (baseName (tagName (state.cursor.rest.drop 1))) ∧
        node.Taken setting.constants (depth + 1) nested part noted)
      ((tag setting inner nested).run state) := by
  obtain ⟨rest, hrest⟩ := List.head?_eq_some_iff.mp hpeek
  rw [tag, run_cursor_bind]
  dsimp only
  rw [hrest, List.drop_succ_cons, List.drop_zero]
  split_ifs with hempty hunknown
  · exact .error (.issue h.le)
  all_goals
    obtain ⟨base, more, hmore, hname⟩ := tagName_spec (by simpa using hempty : tagName rest ≠ [])
    have hlead : state.cursor.Passes (state.cursor.advance ('@' :: tagName rest).length)
        ('@' :: tagName rest) := by
      refine .of_isPrefix ?_
      rw [hrest, List.cons_prefix_cons]
      exact ⟨rfl, more, hmore.symm⟩
    rw [run_advance_bind]
    refine .behind hlead ?_
  · refine .noted ((tagBehind_consumes hinner (hlead.inside h)).imp fun node part noted hnode => ?_)
    refine ⟨hnode.1, List.cons_ne_nil _ _, fun _ hnone => ?_, fun hnone => ?_, fun hnone => ?_⟩
    all_goals exact absurd hnone (List.cons_ne_nil _ _)
  · refine (tagBehind_consumes hinner (hlead.inside h)).imp fun node part noted hnode => ?_
    obtain ⟨htag, hnode⟩ := hnode
    refine ⟨htag, List.cons_ne_nil _ _, fun hnested _ => ⟨_, htag, ?_⟩, fun hnoted => ?_, fun hnoted => ?_⟩
    · simpa [hnested] using hunknown
    · exact (hnode hnoted base _ hname.baseName_eq hname).1
    · exact (hnode hnoted base _ hname.baseName_eq hname).2

/-- On every level, readers account for what they go over. -/
theorem levels_account (setting : Setting) (text : List Char) (depth : Nat) :
    (levels setting depth).Accounts setting text depth := by
  induction depth with
  | zero => exact ⟨fun _ h _ => .error (.issue h.le), fun _ h _ => .error (.issue h.le)⟩
  | succ depth ih =>
      exact ⟨fun _ h hpeek => (tag_consumes ih true h hpeek).imp fun _ _ _ hnode => hnode.2,
        fun _ h hpeek => braces_consumes ih h hpeek⟩

theorem topTag_consumes (h : state.cursor.Inside text) (hpeek : state.cursor.peek? = some '@') :
    Consumes (Stop.Justified setting.constants text) state (fun node part noted =>
      node.tag = .text (baseName (tagName (state.cursor.rest.drop 1))) ∧
        node.Taken setting.constants maxNesting false part noted) ((topTag setting).run state) :=
  tag_consumes (levels_account setting text (maxNesting - 1)) false h hpeek

end Reader

/-- A tag that a line starts with has its mark inside the text. -/
theorem candidate?_inside {text : List Char} {line : Cursor} {candidate : Candidate}
    (h : candidate? line = some candidate) (hline : line.Within text) :
    candidate.start.Inside text ∧ candidate.start.peek? = some '@' := by
  obtain ⟨blanks, rest, -, -, hstart, -, -⟩ := candidate?_spec h
  have hwithin := candidate?_within h hline
  refine ⟨⟨hwithin, ?_⟩, by rw [hstart]; rfl⟩
  by_contra hlt
  rw [Cursor.Within, List.drop_eq_nil_of_le (Nat.le_of_not_le hlt), hstart] at hwithin
  cases hwithin

end DocCompiler.Annotation
