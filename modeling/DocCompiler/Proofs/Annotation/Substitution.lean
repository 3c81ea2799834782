import Mathlib.Tactic.SplitIfs
import DocCompiler.Project.Settings
import DocCompiler.Proofs.Annotation.Recast
import DocCompiler.Proofs.Annotation.Roundtrip
import DocCompiler.Proofs.Data.Registry

/-!
The table of constants while annotations are read. No decision of the readers depends on it: reading
with a table gives what reading without one gives, with the values of the table put in place of the
constants that it names.
-/

namespace DocCompiler

mutual

/-- Whether all keys of mappings in a value have a text. -/
def Datum.haveTexts : Datum → Bool
  | .list items => itemsHaveTexts items
  | .map entries => entriesHaveTexts entries
  | _ => true

/-- Whether all keys of mappings in items have a text. -/
def Datum.itemsHaveTexts : List Datum → Bool
  | [] => true
  | item :: rest => Datum.haveTexts item && Datum.itemsHaveTexts rest

/-- Whether the keys of entries and of mappings in their values have a text. -/
def Datum.entriesHaveTexts : List (Datum × Datum) → Bool
  | [] => true
  | (key, item) :: rest => key.isShowable && Datum.haveTexts item && Datum.entriesHaveTexts rest

end

namespace Annotation

/-- The value of a constant can be lifted. -/
def Liftable (datum : Datum) : Prop :=
  ∃ value, Value.ofDatum datum = .ok value

mutual

/-- A value that may be a constant can be lifted when the keys in it have texts. -/
theorem Liftable.of_fit : (datum : Datum) → Settings.unfit? datum = none →
    datum.haveTexts = true → Liftable datum
  | .null, _, _ | .bool _, _, _ | .number _, _, _ | .text _, _, _ | .codes _, _, _ => ⟨_, rfl⟩
  | .list items, hfit, htexts => by
      obtain ⟨values, hvalues⟩ := Liftable.of_fit_items items hfit htexts
      exact ⟨.array values, by rw [Value.ofDatum, hvalues]; rfl⟩
  | .map entries, hfit, htexts => by
      obtain ⟨values, hvalues⟩ := Liftable.of_fit_entries entries hfit htexts
      exact ⟨.mapping values, by rw [Value.ofDatum, hvalues]; rfl⟩

theorem Liftable.of_fit_items : (items : List Datum) → Settings.itemsUnfit? items = none →
    Datum.itemsHaveTexts items = true → ∃ values, Value.ofDatumItems items = .ok values
  | [], _, _ => ⟨[], rfl⟩
  | item :: rest, hfit, htexts => by
      rw [Settings.itemsUnfit?, Option.or_eq_none_iff] at hfit
      rw [Datum.itemsHaveTexts, Bool.and_eq_true] at htexts
      obtain ⟨value, hvalue⟩ := Liftable.of_fit item hfit.1 htexts.1
      obtain ⟨values, hvalues⟩ := Liftable.of_fit_items rest hfit.2 htexts.2
      exact ⟨value :: values, by rw [Value.ofDatumItems, hvalue, hvalues]; rfl⟩

theorem Liftable.of_fit_entries : (entries : List (Datum × Datum)) →
    Settings.entriesUnfit? entries = none → Datum.entriesHaveTexts entries = true →
      ∃ values, Value.ofDatumEntries entries = .ok values
  | [], _, _ => ⟨[], rfl⟩
  | (key, item) :: rest, hfit, htexts => by
      rw [Settings.entriesUnfit?, Option.or_eq_none_iff] at hfit
      simp only [Datum.entriesHaveTexts, Bool.and_eq_true] at htexts
      obtain ⟨value, hvalue⟩ := Liftable.of_fit item hfit.1 htexts.1.2
      obtain ⟨values, hvalues⟩ := Liftable.of_fit_entries rest hfit.2 htexts.2
      refine ⟨(key.asText, value) :: values, ?_⟩
      rw [Value.ofDatumEntries, htexts.1.1, hvalue, hvalues]
      rfl

end

/-- What stands for a constant: the value of the table under its name, if there is one. -/
def constantValue (constants : Constants) (name : String) : Value :=
  match constants.get? name with
  | none => .constant name
  | some datum => (Value.ofDatum datum).toOption.getD (.constant name)

theorem constantValue_of_get?_eq_none {constants : Constants} {name : String}
    (h : constants.get? name = none) : constantValue constants name = .constant name := by
  rw [constantValue, h]

theorem constantValue_of_get? {constants : Constants} {name : String} {datum : Datum} {value : Value}
    (h : constants.get? name = some datum) (hvalue : Value.ofDatum datum = .ok value) :
    constantValue constants name = value := by
  rw [constantValue, h]
  change (Value.ofDatum datum).toOption.getD _ = value
  rw [hvalue]
  rfl

section Substitute

variable (constants : Constants)

mutual

/-- A value with the values of a table in place of the constants that the table names. -/
def Value.substitute : Value → Value
  | .leaf kind data =>
      match kind, data with
      | .constant, .text name => constantValue constants name
      | kind, data => .leaf kind data
  | .array items => .array (Value.substituteItems items)
  | .mapping entries => .mapping (Value.substituteEntries entries)
  | .tag node => .tag (Node.substitute node)

/-- Items with the values of a table in place of constants. -/
def Value.substituteItems : List Value → List Value
  | [] => []
  | item :: rest => Value.substitute item :: Value.substituteItems rest

/-- Entries with the values of a table in place of constants. -/
def Value.substituteEntries : List (Datum × Value) → List (Datum × Value)
  | [] => []
  | (key, item) :: rest => (key, Value.substitute item) :: Value.substituteEntries rest

/-- An annotation with the values of a table in place of the constants that the table names. -/
def Node.substitute : Node → Node
  | ⟨tag, attributes, children, line, column⟩ =>
      ⟨tag, Value.substituteEntries attributes, Node.substituteNodes children, line, column⟩

/-- Annotations with the values of a table in place of constants. -/
def Node.substituteNodes : List Node → List Node
  | [] => []
  | node :: rest => Node.substitute node :: Node.substituteNodes rest

end

@[simp] theorem Value.substituteItems_eq_map (items : List Value) :
    Value.substituteItems constants items = items.map (Value.substitute constants) := by
  induction items with
  | nil => rfl
  | cons item rest ih => rw [Value.substituteItems, ih, List.map_cons]

@[simp] theorem Value.substituteEntries_eq_map (entries : List (Datum × Value)) :
    Value.substituteEntries constants entries =
      entries.map fun entry => (entry.1, entry.2.substitute constants) := by
  induction entries with
  | nil => rfl
  | cons entry rest ih => rw [Value.substituteEntries, ih, List.map_cons]

@[simp] theorem Node.substituteNodes_eq_map (nodes : List Node) :
    Node.substituteNodes constants nodes = nodes.map (Node.substitute constants) := by
  induction nodes with
  | nil => rfl
  | cons node rest ih => rw [Node.substituteNodes, ih, List.map_cons]

end Substitute

/-- What readers know without a table of constants. -/
def Setting.bare (setting : Setting) : Setting :=
  { setting with constants := [] }

/-- A word is read like one without a table. -/
theorem Reader.wordValue_eq {constants : Constants} (h : ∀ entry ∈ constants, Liftable entry.2)
    (word : String) : wordValue constants word = (wordValue [] word).map (Value.substitute constants) := by
  simp only [wordValue]
  split_ifs
  · rfl
  · rfl
  · rfl
  · change _ = Except.ok (constantValue constants word)
    cases hget : constants.get? word with
    | none => rw [constantValue_of_get?_eq_none hget]
    | some datum =>
        obtain ⟨value, hvalue⟩ := h _ (OrderedMap.mem_of_get? hget)
        rw [constantValue_of_get? hget hvalue]
        exact hvalue

/-- What is read with a table is what is read without one, with the values of the table put in. -/
theorem recast_substitute {setting : Setting} (h : ∀ entry ∈ setting.constants, Liftable entry.2) :
    Recast setting setting.bare (Value.substitute setting.constants)
      (Node.substitute setting.constants) where
  string _ := rfl
  number _ := rfl
  word := Reader.wordValue_eq h
  array items := by rw [Value.substitute, Value.substituteItems_eq_map]
  mapping entries := by rw [Value.substitute, Value.substituteEntries_eq_map]
  tag _ := rfl
  node tag attributes children offset := by
    rw [Node.substitute, Value.substituteEntries_eq_map, Node.substituteNodes_eq_map]
    rfl

/-- Reading with a table whose values can be lifted puts them in place of the constants. -/
theorem parse_of_liftable {constants : Constants} (h : ∀ entry ∈ constants, Liftable entry.2)
    (block : Block) :
    parse constants block =
      (parse [] block).map fun found => (found.1.map (Node.substitute constants), found.2) := by
  simp only [parse, parseText]
  generalize locate block.source block.startLine block.startColumn block.lineColumns
    block.text.toList = place
  rw [(@recast_substitute ⟨constants, place⟩ h).readLines]
  change _ = Except.map _ (readLines (Setting.bare ⟨constants, place⟩) {} _ >>= _)
  cases readLines (Setting.bare ⟨constants, place⟩) {} (lineStarts 0 block.text.toList) <;> rfl

/-- Constants are substituted and nothing else: where every value of a table can be lifted, reading
with the table gives the faults of reading without one, and its annotations with the values of the
table in place of the constants that it names. -/
theorem parse_eq_substitute {constants : Constants}
    (h : ∀ entry ∈ constants, Settings.unfit? entry.2 = none ∧ entry.2.haveTexts = true)
    (block : Block) :
    parse constants block =
      (parse [] block).map fun found => (found.1.map (Node.substitute constants), found.2) :=
  parse_of_liftable (fun entry hentry => Liftable.of_fit entry.2 (h entry hentry).1 (h entry hentry).2) block

/-- The general theorem where a table knows one of two constants. -/
theorem parse_eq_substitute_roles :
    let constants : Constants := [("ROLES", .list [.text "admin", .map [(.int 1, .bool true)]])]
    let block : Block :=
      { source := "api.php", symbol := .ofFile "api.php", startLine := 1, startColumn := 1, endLine := 1
        text := "@Get(path=ROOT, tags=ROLES)" }
    (∀ entry ∈ constants, Settings.unfit? entry.2 = none ∧ entry.2.haveTexts = true) ∧
      parse constants block =
        (parse [] block).map fun found => (found.1.map (Node.substitute constants), found.2) := by
  have h : ∀ entry ∈ [("ROLES", Datum.list [.text "admin", .map [(.int 1, .bool true)]])],
      Settings.unfit? entry.2 = none ∧ entry.2.haveTexts = true := by
    decide
  exact ⟨h, parse_eq_substitute h _⟩

section LongKey

variable {constants : Constants} {datum : Datum} (hget : constants.get? "LIMITS" = some datum)
  (hdatum : Value.ofDatum datum = .error .longKey)

include hget hdatum

/-- A constant that has a key without a text stops the reading of the tag that names it. -/
theorem run_topTag_limits (place : Nat → Location) :
    (Reader.topTag ⟨constants, place⟩).run (.before 0 "@Get(path=LIMITS)".toList []) =
      .error (.number .key) := by
  have hword : IsIdentifier "LIMITS".toList :=
    @IsIdentifier.intro [] "IMITS".toList _ [] (.inl rfl) (by decide)
      (List.all_iff_forall_prop.mp (by decide)) (by simp)
  have hvalue : Reader.wordValue constants "LIMITS" = .error .longKey := by
    have hkeyword := @Reader.wordValue_of_lowered constants "LIMITS".toList "limits" (by decide)
    rw [show String.ofList "LIMITS".toList = "LIMITS" by simp] at hkeyword
    rw [hkeyword, hget]
    exact hdatum
  have hpath : IsName "path".toList := isName_of_all (by decide)
  have hget : IsName "Get".toList := isName_of_all (by decide)
  have hfollows : Follows [')'] := @Follows.blanks_cons [] _ _ (by simp) (by decide)
  have hlist {inner : Reader.Inner} {unclosed : Reader Reader.Arguments} :
      (Reader.list ')' unclosed (.argumentEndExpected "Get")
        (Reader.argument ⟨constants, place⟩ inner "Get") {}).run
          (.before 4 ('(' :: ([] ++ ("path".toList ++ ([] ++ '=' :: ([] ++ ("LIMITS".toList ++ [')'])))))) [])
        = .error (.number .key) := by
    rw [Reader.run_list_items (by decide) (by simp) (hpath.begins.append _)]
    refine Reader.run_items_error ?_
    rw [Reader.run_argument_keyed hpath (by simp) (by simp) (hword.begins.append _)]
    refine Result.run_bind_of_error ?_
    rw [Reader.run_value_word hword hfollows, show String.ofList "LIMITS".toList = "LIMITS" by simp, hvalue]
  have hrun := @Reader.run_tag ⟨constants, place⟩ (Reader.levels ⟨constants, place⟩ (maxNesting - 1))
    _ _ "(path=LIMITS)".toList (.base hget) (by decide) (.cons (by decide)) rfl false 0 []
  refine hrun.trans ?_
  rw [Reader.run_cursor_bind]
  exact Reader.run_moveTo_bind.trans (Result.run_bind_of_error hlist)

theorem parse_limits {block : Block} (htext : block.text = "@Get(path=LIMITS)") :
    parse constants block = .error .key := by
  simp only [parse, parseText, htext]
  generalize locate block.source block.startLine block.startColumn block.lineColumns
    "@Get(path=LIMITS)".toList = place
  have hname : IsName "Get".toList := isName_of_all (by decide)
  have hcandidate := @candidate?_prints _ _ "(path=LIMITS)".toList (.base hname) (.cons (by decide)) rfl
  have htag : readTag ⟨constants, place⟩ ⟨0, ⟨0, "@Get(path=LIMITS)".toList⟩, "Get".toList⟩ =
      .error .key := by
    have hrun := run_topTag_limits hget hdatum place
    rw [ReadState.before] at hrun
    rw [readTag, hrun]
  have hlines := @readLines_first_error ⟨constants, place⟩ "@Get(path=LIMITS)".toList _
    hcandidate (by simp) _ htag
  rw [hlines]
  rfl

end LongKey

/-- A key that is too long to have a text stops the reading of a block that names its constant. -/
theorem parse_ne_substitute_of_longKey :
    let constants : Constants := [("LIMITS", .map [(.int (tenTo 4300), .null)])]
    let block : Block :=
      { source := "api.php", symbol := .ofFile "api.php", startLine := 1, startColumn := 1, endLine := 1
        text := "@Get(path=LIMITS)" }
    (∀ entry ∈ constants, Settings.unfit? entry.2 = none) ∧
      parse constants block ≠
        (parse [] block).map fun found => (found.1.map (Node.substitute constants), found.2) := by
  intro constants block
  refine ⟨by decide, ?_⟩
  have hlift : Value.ofDatum (.map [(.int (tenTo 4300), .null)]) = .error .longKey := by
    have hkey : (Datum.int (tenTo 4300)).isShowable = false := by decide +kernel
    rw [Value.ofDatum, Value.ofDatumEntries, hkey]
    rfl
  let node : Node := ⟨.text "Get", [(.text "path", .constant "LIMITS")], [], 0, 0⟩
  have hpath : IsName "path".toList := isName_of_all (by decide)
  have hlimits : IsName "LIMITS".toList := isName_of_all (by decide)
  have hprintable : node.Printable [] := by
    refine ⟨⟨_, rfl, by decide⟩, ?_, by simp, ⟨⟨hlimits.isIdentifier, by decide, rfl⟩, trivial⟩, trivial⟩
    simp only [List.forall_mem_cons]
    exact ⟨⟨_, rfl, hpath⟩, by simp⟩
  have hprints : node.Prints block.text.toList := by
    have hkeyed : Keyed SpellsName ['='] (.text "path") "LIMITS".toList "path=LIMITS".toList :=
      @Keyed.intro _ _ _ _ _ [] [] _ (SpellsName.bare hpath) (by simp)
        (List.mem_singleton.mpr rfl) (by simp)
    have harguments : Enclosed '(' ')' ["path=LIMITS".toList] "(path=LIMITS)".toList :=
      @Enclosed.list _ _ [] _ _ (by simp) (@Listed.last _ _ [] (by simp))
    exact ⟨"Get".toList, _, rfl, .base (isName_of_all (by decide)), .inr ⟨[], _, _, _, by simp,
      ⟨_, _, _, rfl, .constant, hkeyed, rfl⟩, rfl, harguments, by simp [block]⟩⟩
  obtain ⟨found, hparse, -⟩ := parse_of_nesting_le hprintable ⟨_, rfl, by decide⟩ hprints (by decide)
  rw [@parse_limits constants _ rfl hlift _ rfl, hparse]
  intro hother
  cases hother

end Annotation

end DocCompiler
