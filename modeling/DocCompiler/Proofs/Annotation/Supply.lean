import DocCompiler.Proofs.Annotation.Leaves
import DocCompiler.Proofs.Annotation.Located
import DocCompiler.Proofs.Data.Numbers
import DocCompiler.Proofs.Data.Registry

/-!
Where the leaves of annotations come from: texts and truth values as they stand in a doc comment, the
numerals in it, and the values of constants.
-/

namespace DocCompiler.Annotation

open Text

variable {admits : LeafKind → Datum → Prop}

theorem Value.allLeaves_append {items others : List Value} :
    Value.AllLeaves admits (items ++ others) ↔ Value.AllLeaves admits items ∧ Value.AllLeaves admits others := by
  simp only [Value.allLeaves_iff, List.forall_mem_append]

theorem Value.entryLeaves_append {entries others : List (Datum × Value)} :
    Value.EntryLeaves admits (entries ++ others) ↔
      Value.EntryLeaves admits entries ∧ Value.EntryLeaves admits others := by
  simp only [Value.entryLeaves_iff, List.forall_mem_append]

theorem Node.allLeaves_append {nodes others : List Node} :
    Node.AllLeaves admits (nodes ++ others) ↔ Node.AllLeaves admits nodes ∧ Node.AllLeaves admits others := by
  simp only [Node.allLeaves_iff, List.forall_mem_append]

/-- All leaves that can be read from a text with a table of constants are admitted. -/
structure Supply (admits : LeafKind → Datum → Prop) (constants : Constants) (text : List Char) : Prop where
  string : ∀ value, admits .string (.text value)
  boolean : ∀ value, admits .boolean (.bool value)
  null : admits .null .null
  name : ∀ name, admits .constant (.text name)
  constant : ∀ entry ∈ constants, ∀ value, Value.ofDatum entry.2 = .ok value → value.Leaves admits
  numeral : ∀ rest, rest <:+ text → ∀ number,
    Reader.numeralValue (numeral rest) = .ok (.number number) → admits .number (.number number)

namespace Reader

variable {setting : Setting} {text : List Char} {inner : Inner} {state : ReadState}

/-- The readers of nested tags and of braces give admitted leaves. -/
structure Inner.Supplied (admits : LeafKind → Datum → Prop) (text : List Char) (inner : Inner) : Prop where
  tag : ∀ state : ReadState, state.cursor.Within text → Gives text (Node.Leaves admits) (inner.tag.run state)
  braces : ∀ state : ReadState, state.cursor.Within text →
    Gives text (Value.Leaves admits) (inner.braces.run state)

theorem exists_number_of_numeralValue {literal : List Char} {value : Value}
    (h : numeralValue literal = .ok value) : ∃ number, value = .number number := by
  simp only [numeralValue] at h
  split_ifs at h
  · exact ⟨_, (Except.ok.inj h).symm⟩
  · split at h
    · exact ⟨_, (Except.ok.inj h).symm⟩
    · cases h

section Supplied

variable (hsupply : Supply admits setting.constants text)

include hsupply

theorem leaves_of_wordValue {word : String} {value : Value} (h : wordValue setting.constants word = .ok value) :
    value.Leaves admits := by
  simp only [wordValue] at h
  split_ifs at h
  · obtain rfl := Except.ok.inj h
    exact hsupply.boolean true
  · obtain rfl := Except.ok.inj h
    exact hsupply.boolean false
  · obtain rfl := Except.ok.inj h
    exact hsupply.null
  · split at h
    · obtain rfl := Except.ok.inj h
      exact hsupply.name word
    · rename_i datum hget
      exact hsupply.constant _ (OrderedMap.mem_of_get? hget) value h

theorem numeralValue_supplies {rest : List Char} (hrest : rest <:+ text) (h : state.cursor.Within text) :
    Gives text (Value.Leaves admits) ((numeralValue (numeral rest) : Reader Value).run state) := by
  intro value later hrun
  obtain ⟨found, hfound, hlater⟩ := Result.bind_eq_ok_iff.mp hrun
  obtain ⟨rfl, rfl⟩ := Prod.mk.inj (Except.ok.inj hlater)
  obtain ⟨number, rfl⟩ := exists_number_of_numeralValue hfound
  exact ⟨hsupply.numeral rest hrest number hfound, h⟩

theorem value_supplies (hinner : inner.Supplied admits text) (h : state.cursor.Within text) :
    Gives text (Value.Leaves admits) ((value setting inner).run state) := by
  rw [value, run_cursor_bind]
  split
  · exact .error
  · exact (string_gives h).bind fun found later _ hlater => .ok (hsupply.string found) hlater
  · exact hinner.braces state h
  · exact (hinner.tag state h).bind fun found later hfound hlater => .ok hfound hlater
  · dsimp only
    split_ifs
    · rw [run_advance_bind]
      have hrest : state.cursor.rest <:+ text := h ▸ List.drop_suffix _ _
      exact numeralValue_supplies hsupply hrest (h.advance _)
    · exact .error
    · rw [run_advance_bind]
      split
      · rename_i found hword
        exact .ok (leaves_of_wordValue hsupply hword) (h.advance _)
      · exact .error
      · exact .error

/-- The leaves in the arguments read so far are admitted. -/
def Arguments.Leaves (admits : LeafKind → Datum → Prop) (done : Arguments) : Prop :=
  Value.EntryLeaves admits done.attributes ∧ Node.AllLeaves admits done.children

theorem argument_supplies (hinner : inner.Supplied admits text) {tag : String} {done : Arguments}
    (hdone : done.Leaves admits) (h : state.cursor.Within text) :
    Gives text (Arguments.Leaves admits) ((argument setting inner tag done).run state) := by
  have hmoved := ((h.advance (simpleName state.cursor.rest).length).skipBlanks.advance 1).skipBlanks
  rw [argument, run_cursor_bind]
  dsimp only
  split_ifs
  · refine (hinner.tag state h).bind fun found later hfound hlater => ?_
    exact .ok ⟨hdone.1, Node.allLeaves_append.mpr ⟨hdone.2, hfound, trivial⟩⟩ hlater
  · rw [run_moveTo_bind]
    refine (value_supplies hsupply hinner hmoved).bind fun given later _ hlater => ?_
    exact (note_gives hlater).bind fun _ last _ hlast => .ok hdone hlast
  · rw [run_moveTo_bind]
    refine (value_supplies hsupply hinner hmoved).bind fun given later hgiven hlater => ?_
    exact .ok ⟨Value.entryLeaves_append.mpr ⟨hdone.1, hgiven, trivial⟩, hdone.2⟩ hlater
  · refine (value_supplies hsupply hinner h).bind fun given later _ hlater => ?_
    exact (note_gives hlater).bind fun _ last _ hlast => .ok hdone hlast

theorem tag_supplies (hinner : inner.Supplied admits text) (nested : Bool) (h : state.cursor.Within text) :
    Gives text (Node.Leaves admits) ((tag setting inner nested).run state) := by
  have hlist {name : String} {opening : Cursor} {later : ReadState} (hlater : later.cursor.Within text) :
      Gives text (Arguments.Leaves admits)
        ((list ')' (fail (.unclosedArguments name) opening.offset) (.argumentEndExpected name)
          (argument setting inner name) {}).run later) :=
    list_gives (fun _ => .error) (fun _ hdone _ h => argument_supplies hsupply hinner hdone h)
      ⟨trivial, trivial⟩ hlater
  rw [tag, run_cursor_bind]
  dsimp only
  split_ifs
  · exact .error
  all_goals rw [run_advance_bind]
  on_goal 1 => refine (note_gives (h.advance _)).bind fun _ later _ hlater => ?_
  on_goal 2 => have hlater := h.advance ((tagName (state.cursor.rest.drop 1)).length + 1)
  all_goals
    rw [run_cursor_bind]
    split_ifs
    · rw [run_moveTo_bind]
      exact (hlist hlater.skipInlineBlanks).bind fun arguments last harguments hlast => .ok harguments hlast
    · exact .ok ⟨trivial, trivial⟩ hlater

/-- The leaves in the items and entries read so far are admitted. -/
def Entries.Leaves (admits : LeafKind → Datum → Prop) (done : Entries) : Prop :=
  Value.AllLeaves admits done.items ∧ Value.EntryLeaves admits done.entries

theorem entry_supplies (hinner : inner.Supplied admits text) {done : Entries} (hdone : done.Leaves admits)
    (h : state.cursor.Within text) :
    Gives text (Entries.Leaves admits) ((entry setting inner done).run state) := by
  rw [entry, run_skipBlanks_bind]
  refine (entryKey_gives h.skipBlanks).bind fun key later _ hlater => ?_
  rw [run_skipBlanks_bind]
  refine (value_supplies hsupply hinner hlater.skipBlanks).bind fun given last hgiven hlast => ?_
  cases key with
  | none => exact .ok ⟨Value.allLeaves_append.mpr ⟨hdone.1, hgiven, trivial⟩, hdone.2⟩ hlast
  | some key => exact .ok ⟨hdone.1, Value.entryLeaves_append.mpr ⟨hdone.2, hgiven, trivial⟩⟩ hlast

theorem braces_supplies (hinner : inner.Supplied admits text) (h : state.cursor.Within text) :
    Gives text (Value.Leaves admits) ((braces setting inner).run state) := by
  rw [braces, run_cursor_bind]
  have hlist : Gives text (Entries.Leaves admits)
      ((list '\x7d' (fail .unclosedBraces state.cursor.offset) .braceEndExpected
        (entry setting inner) {}).run state) :=
    list_gives (fun _ => .error) (fun _ hdone _ h => entry_supplies hsupply hinner hdone h)
      ⟨trivial, trivial⟩ h
  refine hlist.bind fun found later hfound hlater => ?_
  split_ifs
  · exact (note_gives hlater).bind fun _ last _ hlast => .ok hfound.1 hlast
  · exact .ok hfound.1 hlater
  · exact (note_gives hlater).bind fun _ last _ hlast => .ok hfound.2 hlast
  · exact .ok hfound.2 hlater

theorem levels_supplied (depth : Nat) : (levels setting depth).Supplied admits text := by
  induction depth with
  | zero => exact ⟨fun _ _ => .error, fun _ _ => .error⟩
  | succ depth ih => exact ⟨fun _ h => tag_supplies hsupply ih true h, fun _ h => braces_supplies hsupply ih h⟩

end Supplied

end Reader

section Lines

variable {setting : Setting} {text : List Char} (hsupply : Supply admits setting.constants text)

include hsupply

theorem leaves_of_readCandidate {line : Cursor} {candidate : Candidate} {outcome : Outcome} {node : Node}
    (hcandidate : candidate? line = some candidate) (hline : line.Within text)
    (h : readCandidate setting candidate = .ok outcome) (hnode : outcome.node = some node) :
    node.Leaves admits := by
  obtain ⟨-, ⟨later, hrun, -⟩ | rfl⟩ := node_of_readCandidate h hnode
  · have hgives := @Reader.tag_supplies _ setting text _ { cursor := candidate.start } hsupply
      (Reader.levels_supplied hsupply (maxNesting - 1)) false (candidate?_within hcandidate hline)
    exact (hgives node later hrun).1
  · exact ⟨trivial, trivial⟩

end Lines

/-- All leaves of the annotations of a doc comment come from its text and from the constants. -/
theorem leaves_of_parse {constants : Constants} {block : Block}
    (hsupply : Supply admits constants block.text.toList) {nodes : List Node} {errors : List ParseError}
    (h : parse constants block = .ok (nodes, errors)) : ∀ node ∈ nodes, node.Leaves admits := by
  obtain ⟨⟨found, issues⟩, hlines, hrest⟩ := Result.bind_eq_ok_iff.mp h
  obtain ⟨rfl, rfl⟩ := Prod.mk.inj (Except.ok.inj hrest)
  exact forall_of_readLines (fun line hline _ _ _ hcandidate =>
    leaves_of_readCandidate hsupply hcandidate (within_of_mem_lineStarts hline)) hlines

section Numbers

variable {allowed : Number → Prop}

namespace Value

mutual

/-- The numbers in a lifted constant are those of the constant. -/
theorem numbers_of_ofDatum : (datum : Datum) → datum.Numbers allowed → ∀ value, ofDatum datum = .ok value →
    value.Leaves fun _ data => data.Numbers allowed
  | .null, _, _, h | .bool _, _, _, h | .text _, _, _, h | .codes _, _, _, h => by
      obtain rfl := Except.ok.inj h
      trivial
  | .number _, hnumber, _, h => by
      obtain rfl := Except.ok.inj h
      exact hnumber
  | .map entries, hentries, _, h => by
      rw [ofDatum] at h
      obtain ⟨found, hfound, rfl⟩ := Result.map_eq_ok_iff.mp h
      exact numbers_of_ofDatumEntries entries hentries found hfound
  | .list items, hitems, _, h => by
      rw [ofDatum] at h
      obtain ⟨found, hfound, rfl⟩ := Result.map_eq_ok_iff.mp h
      exact numbers_of_ofDatumItems items hitems found hfound
  | .pair first second, hpair, _, h => by
      rw [ofDatum] at h
      obtain ⟨one, hone, h⟩ := Result.bind_eq_ok_iff.mp h
      obtain ⟨two, htwo, h⟩ := Result.bind_eq_ok_iff.mp h
      obtain rfl := Except.ok.inj h
      exact ⟨numbers_of_ofDatum first hpair.1 one hone, numbers_of_ofDatum second hpair.2 two htwo, trivial⟩

theorem numbers_of_ofDatumItems : (items : List Datum) → Datum.AllNumbers allowed items →
    ∀ values, ofDatumItems items = .ok values → Value.AllLeaves (fun _ data => data.Numbers allowed) values
  | [], _, _, h => by
      obtain rfl := Except.ok.inj h
      trivial
  | item :: rest, hitems, _, h => by
      rw [ofDatumItems] at h
      obtain ⟨value, hvalue, h⟩ := Result.bind_eq_ok_iff.mp h
      obtain ⟨values, hvalues, h⟩ := Result.bind_eq_ok_iff.mp h
      obtain rfl := Except.ok.inj h
      exact ⟨numbers_of_ofDatum item hitems.1 value hvalue, numbers_of_ofDatumItems rest hitems.2 values hvalues⟩

theorem numbers_of_ofDatumEntries : (entries : List (Datum × Datum)) → Datum.EntryNumbers allowed entries →
    ∀ values, ofDatumEntries entries = .ok values →
      Value.EntryLeaves (fun _ data => data.Numbers allowed) values
  | [], _, _, h => by
      obtain rfl := Except.ok.inj h
      trivial
  | (key, item) :: rest, hentries, _, h => by
      rw [ofDatumEntries] at h
      split_ifs at h
      · exact absurd h nofun
      obtain ⟨value, hvalue, h⟩ := Result.bind_eq_ok_iff.mp h
      obtain ⟨values, hvalues, h⟩ := Result.bind_eq_ok_iff.mp h
      obtain rfl := Except.ok.inj h
      exact ⟨numbers_of_ofDatum item hentries.2.1 value hvalue,
        numbers_of_ofDatumEntries rest hentries.2.2 values hvalues⟩

end

end Value

/-- The numerals in the text of a doc comment, wherever one starts, have admitted values. -/
def Block.Numerals (allowed : Number → Prop) (block : Block) : Prop :=
  ∀ rest, rest <:+ block.text.toList → ∀ number,
    Reader.numeralValue (numeral rest) = .ok (.number number) → allowed number

/-- The numbers in the annotations of a doc comment are those of its numerals and of the constants. -/
theorem numbers_of_parse {constants : Constants} {block : Block}
    (hconstants : ∀ entry ∈ constants, entry.2.Numbers allowed) (hnumerals : Block.Numerals allowed block)
    {nodes : List Node} {errors : List ParseError} (h : parse constants block = .ok (nodes, errors)) :
    ∀ node ∈ nodes, node.Leaves fun _ data => data.Numbers allowed :=
  leaves_of_parse
    { string := fun _ => trivial
      boolean := fun _ => trivial
      null := trivial
      name := fun _ => trivial
      constant := fun entry hentry => Value.numbers_of_ofDatum entry.2 (hconstants entry hentry)
      numeral := hnumerals } h

end Numbers

end DocCompiler.Annotation
