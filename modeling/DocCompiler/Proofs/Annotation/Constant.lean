import DocCompiler.Proofs.Annotation.Productions
import DocCompiler.Proofs.Annotation.Substitution
import DocCompiler.Proofs.Text.Utf8
import DocCompiler.Proofs.Yaml.Filling

/-!
Constants of the settings as values of attributes. A constant that the settings accept can be lifted, unless a key
of a mapping in it has no text, and lowering gives it back with texts as keys. What the settings accept is
therefore never reported as a constant of an unsupported kind.
-/

namespace DocCompiler

mutual

/-- A value with the text of each key of a mapping in the place of the key. -/
def Datum.withTextKeys : Datum → Datum
  | .list items => .list (Datum.itemsWithTextKeys items)
  | .map entries => .map (Datum.entriesWithTextKeys entries)
  | value => value

/-- Items with texts as keys of mappings. -/
def Datum.itemsWithTextKeys : List Datum → List Datum
  | [] => []
  | item :: rest => Datum.withTextKeys item :: Datum.itemsWithTextKeys rest

/-- Entries with texts as keys, also of mappings in their values. -/
def Datum.entriesWithTextKeys : List (Datum × Datum) → List (Datum × Datum)
  | [] => []
  | (key, item) :: rest => (key.asText, Datum.withTextKeys item) :: Datum.entriesWithTextKeys rest

end

mutual

/-- The keys of each mapping in a value have different texts. -/
def Datum.DistinctTexts : Datum → Prop
  | .list items => Datum.ItemsDistinctTexts items
  | .map entries => (entries.map fun entry => entry.1.asText).Nodup ∧ Datum.EntriesDistinctTexts entries
  | _ => True

/-- The keys of each mapping in items have different texts. -/
def Datum.ItemsDistinctTexts : List Datum → Prop
  | [] => True
  | item :: rest => Datum.DistinctTexts item ∧ Datum.ItemsDistinctTexts rest

/-- The keys of each mapping in the values of entries have different texts. -/
def Datum.EntriesDistinctTexts : List (Datum × Datum) → Prop
  | [] => True
  | (_, item) :: rest => Datum.DistinctTexts item ∧ Datum.EntriesDistinctTexts rest

end

namespace Datum

theorem keys_entriesWithTextKeys (entries : List (Datum × Datum)) :
    (entriesWithTextKeys entries).map (·.1) = entries.map fun entry => entry.1.asText := by
  induction entries with
  | nil => rfl
  | cons entry rest ih => rw [entriesWithTextKeys, List.map_cons, List.map_cons, ih]

theorem isHashable_asText (value : Datum) : value.asText.isHashable = true := by
  cases value <;> rfl

theorem distinct_entriesWithTextKeys {entries : List (Datum × Datum)}
    (h : (entries.map fun entry => entry.1.asText).Nodup) : Distinct (entriesWithTextKeys entries) := by
  rw [distinct_iff_keys, keys_entriesWithTextKeys]
  refine h.imp_of_mem fun {first second} hfirst _ hne => ?_
  obtain ⟨entry, -, rfl⟩ := List.mem_map.mp hfirst
  rw [← Bool.not_eq_true, sameKey_iff_eq (.inl (asText_asText entry.1))]
  exact hne

end Datum

namespace Annotation

section Lift

mutual

/-- A value that may be a constant and has a key without a text cannot be lifted for that key. -/
theorem Value.ofDatum_of_not_haveTexts : (datum : Datum) → Settings.unfit? datum = none →
    datum.haveTexts = false → Value.ofDatum datum = .error .longKey
  | .list items, hfit, htexts => by
      rw [Value.ofDatum, Value.ofDatumItems_of_not_haveTexts items hfit htexts]
      rfl
  | .map entries, hfit, htexts => by
      rw [Value.ofDatum, Value.ofDatumEntries_of_not_haveTexts entries hfit htexts]
      rfl

theorem Value.ofDatumItems_of_not_haveTexts : (items : List Datum) → Settings.itemsUnfit? items = none →
    Datum.itemsHaveTexts items = false → Value.ofDatumItems items = .error .longKey
  | item :: rest, hfit, htexts => by
      rw [Settings.itemsUnfit?, Option.or_eq_none_iff] at hfit
      rw [Datum.itemsHaveTexts, Bool.and_eq_false_iff] at htexts
      rw [Value.ofDatumItems]
      cases hitem : item.haveTexts with
      | false =>
          rw [Value.ofDatum_of_not_haveTexts item hfit.1 hitem]
          rfl
      | true =>
          obtain ⟨value, hvalue⟩ := Liftable.of_fit item hfit.1 hitem
          have hrest := htexts.resolve_left (by rw [hitem]; decide)
          rw [hvalue, Value.ofDatumItems_of_not_haveTexts rest hfit.2 hrest]
          rfl

theorem Value.ofDatumEntries_of_not_haveTexts : (entries : List (Datum × Datum)) →
    Settings.entriesUnfit? entries = none → Datum.entriesHaveTexts entries = false →
      Value.ofDatumEntries entries = .error .longKey
  | (key, item) :: rest, hfit, htexts => by
      rw [Settings.entriesUnfit?, Option.or_eq_none_iff] at hfit
      rw [Datum.entriesHaveTexts, Bool.and_eq_false_iff, Bool.and_eq_false_iff] at htexts
      rw [Value.ofDatumEntries]
      cases hkey : key.isShowable with
      | false => rfl
      | true =>
          cases hitem : item.haveTexts with
          | false =>
              rw [Value.ofDatum_of_not_haveTexts item hfit.1 hitem]
              rfl
          | true =>
              obtain ⟨value, hvalue⟩ := Liftable.of_fit item hfit.1 hitem
              have hrest : Datum.entriesHaveTexts rest = false := by simpa [hkey, hitem] using htexts
              rw [hvalue, Value.ofDatumEntries_of_not_haveTexts rest hfit.2 hrest]
              rfl

end

/-- What keeps a value that may be a constant from being lifted is a key without a text, and nothing else. -/
theorem Liftable.iff_haveTexts {datum : Datum} (hfit : Settings.unfit? datum = none) :
    (Liftable datum ↔ datum.haveTexts = true) ∧ ∀ kind, Value.ofDatum datum ≠ .error (.unsupported kind) := by
  cases htexts : datum.haveTexts with
  | true =>
      obtain ⟨value, hvalue⟩ := Liftable.of_fit datum hfit htexts
      rw [Liftable, hvalue]
      exact ⟨⟨fun _ => rfl, fun _ => ⟨value, rfl⟩⟩, nofun⟩
  | false =>
      rw [Liftable, Value.ofDatum_of_not_haveTexts datum hfit htexts]
      exact ⟨⟨nofun, nofun⟩, nofun⟩

variable (location : Option Location)

mutual

/-- Lowering undoes lifting, but for the keys, which stay texts. -/
theorem Value.toDatum?_ofDatum : (datum : Datum) → Settings.unfit? datum = none → datum.DistinctTexts →
    ∀ value, Value.ofDatum datum = .ok value → value.toDatum? location = some datum.withTextKeys
  | .null, _, _, _, h | .bool _, _, _, _, h | .number _, _, _, _, h | .text _, _, _, _, h | .codes _, _, _, _, h => by
      obtain rfl := Except.ok.inj h
      rfl
  | .list items, hfit, hdistinct, _, h => by
      rw [Value.ofDatum] at h
      obtain ⟨values, hvalues, rfl⟩ := Result.map_eq_ok_iff.mp h
      rw [Value.toDatum?, Value.toDatumItems?_ofDatumItems items hfit hdistinct values hvalues]
      rfl
  | .map entries, hfit, hdistinct, _, h => by
      rw [Value.ofDatum] at h
      obtain ⟨values, hvalues, rfl⟩ := Result.map_eq_ok_iff.mp h
      rw [Value.toDatum?, Value.toDatumEntries?_ofDatumEntries entries hfit hdistinct.2 values hvalues,
        Option.map_some, Datum.distinctEntries_of_distinct (Datum.distinct_entriesWithTextKeys hdistinct.1)]
      rfl

theorem Value.toDatumItems?_ofDatumItems : (items : List Datum) → Settings.itemsUnfit? items = none →
    Datum.ItemsDistinctTexts items → ∀ values, Value.ofDatumItems items = .ok values →
      Value.toDatumItems? location values = some (Datum.itemsWithTextKeys items)
  | [], _, _, _, h => by
      obtain rfl := Except.ok.inj h
      rfl
  | item :: rest, hfit, hdistinct, _, h => by
      rw [Settings.itemsUnfit?, Option.or_eq_none_iff] at hfit
      rw [Value.ofDatumItems] at h
      obtain ⟨value, hvalue, h⟩ := Result.bind_eq_ok_iff.mp h
      obtain ⟨values, hvalues, h⟩ := Result.bind_eq_ok_iff.mp h
      obtain rfl := Except.ok.inj h
      rw [Value.toDatumItems?, Value.toDatum?_ofDatum item hfit.1 hdistinct.1 value hvalue,
        Value.toDatumItems?_ofDatumItems rest hfit.2 hdistinct.2 values hvalues]
      rfl

theorem Value.toDatumEntries?_ofDatumEntries : (entries : List (Datum × Datum)) →
    Settings.entriesUnfit? entries = none → Datum.EntriesDistinctTexts entries →
      ∀ values, Value.ofDatumEntries entries = .ok values →
        Value.toDatumEntries? location values = some (Datum.entriesWithTextKeys entries)
  | [], _, _, _, h => by
      obtain rfl := Except.ok.inj h
      rfl
  | (key, item) :: rest, hfit, hdistinct, _, h => by
      rw [Settings.entriesUnfit?, Option.or_eq_none_iff] at hfit
      rw [Value.ofDatumEntries] at h
      split_ifs at h
      · exact absurd h nofun
      obtain ⟨value, hvalue, h⟩ := Result.bind_eq_ok_iff.mp h
      obtain ⟨values, hvalues, h⟩ := Result.bind_eq_ok_iff.mp h
      obtain rfl := Except.ok.inj h
      rw [Value.toDatumEntries?, Value.toDatum?_ofDatum item hfit.1 hdistinct.1 value hvalue,
        Value.toDatumEntries?_ofDatumEntries rest hfit.2 hdistinct.2 values hvalues, Datum.isHashable_asText]
      rfl

end

end Lift

/-- A fault that a table of constants accounts for. An unsupported constant stands in the table with a value that
cannot be lifted; other faults have nothing to do with the table. -/
def Issue.Grounded (constants : Constants) : Issue → Prop
  | .unsupportedConstant name kind =>
      ∃ datum, constants.get? name = some datum ∧ Value.ofDatum datum = .error (.unsupported kind)
  | _ => True

/-- A run notes grounded faults only, and stops for no other ones. -/
inductive Grounds {α : Type} (constants : Constants) : Except Stop (α × ReadState) → Prop
  | ok {found : α} {later : ReadState} (h : ∀ problem ∈ later.problems, problem.1.Grounded constants) :
      Grounds constants (.ok (found, later))
  | issue {issue : Issue} {offset : Nat} (h : issue.Grounded constants) :
      Grounds constants (.error (.issue issue offset))
  | number {number : LongNumber} : Grounds constants (.error (.number number))

namespace Reader

variable {α β : Type} {constants : Constants}

/-- A reader that starts with grounded faults ends with such. -/
def Grounded (constants : Constants) (reader : Reader α) : Prop :=
  ∀ state : ReadState, (∀ problem ∈ state.problems, problem.1.Grounded constants) →
    Grounds constants (reader.run state)

namespace Grounded

theorem pure (found : α) : Grounded constants (Pure.pure found) :=
  fun _ h => .ok h

theorem bind {reader : Reader α} {next : α → Reader β} (h : Grounded constants reader)
    (hnext : ∀ found, Grounded constants (next found)) : Grounded constants (reader >>= next) := by
  intro state hstate
  have hresult := h state hstate
  rw [StateT.run_bind]
  generalize reader.run state = result at hresult
  cases hresult with
  | ok hlater => exact hnext _ _ hlater
  | issue hissue => exact .issue hissue
  | number => exact .number

theorem fail {issue : Issue} {offset : Nat} (h : issue.Grounded constants) :
    Grounded constants (Reader.fail issue offset : Reader α) :=
  fun _ _ => .issue h

theorem note {issue : Issue} {offset : Nat} (h : issue.Grounded constants) :
    Grounded constants (Reader.note issue offset) :=
  fun _ hstate => .ok (List.forall_mem_append.mpr ⟨hstate, List.forall_mem_singleton.mpr h⟩)

theorem cursor : Grounded constants Reader.cursor :=
  fun _ h => .ok h

theorem moveTo (cursor : Cursor) : Grounded constants (Reader.moveTo cursor) :=
  fun _ h => .ok h

theorem advance (count : Nat) : Grounded constants (Reader.advance count) :=
  fun _ h => .ok h

theorem skipBlanks : Grounded constants Reader.skipBlanks :=
  fun _ h => .ok h

theorem string : Grounded constants Reader.string := by
  refine cursor.bind fun start => ?_
  split
  · exact fail trivial
  · exact (advance _).bind fun _ => pure _

theorem numeralValue (literal : List Char) : Grounded constants (Reader.numeralValue literal : Reader Value) := by
  intro state hstate
  change Grounds constants (Reader.numeralValue literal >>= fun value => Pure.pure (value, state))
  cases hvalue : Reader.numeralValue literal with
  | ok value => exact .ok hstate
  | error stop =>
      obtain ⟨number, rfl⟩ : ∃ number, stop = .number number := by
        simp only [Reader.numeralValue] at hvalue
        split_ifs at hvalue
        split at hvalue
        · cases hvalue
        · exact ⟨_, (Except.error.inj hvalue).symm⟩
      exact .number

theorem keyBehind (start : Cursor) (key : Option String) : Grounded constants (Reader.keyBehind start key) := by
  refine cursor.bind fun behind => ?_
  dsimp only
  split
  · exact (moveTo _).bind fun _ => pure _
  · split_ifs
    · exact (moveTo _).bind fun _ => pure _
    · exact (moveTo _).bind fun _ => pure _
  · exact (moveTo _).bind fun _ => pure _

theorem entryKey? : Grounded constants Reader.entryKey? := by
  rw [entryKey?_eq]
  refine cursor.bind fun start => ?_
  split_ifs
  · exact string.bind fun key => keyBehind start (some key)
  · exact (advance _).bind fun _ => keyBehind start _

section List

variable {σ : Type} {close : Char} {unclosed : Reader σ} {endExpected : Char → Issue} {item : σ → Reader σ}
  (hunclosed : Grounded constants unclosed) (hend : ∀ c, (endExpected c).Grounded constants)
  (hitem : ∀ done, Grounded constants (item done))

include hunclosed hend hitem

theorem items (fuel : Nat) (done : σ) :
    Grounded constants (Reader.items close unclosed endExpected item fuel done) := by
  induction fuel generalizing done with
  | zero => exact hunclosed
  | succ fuel ih =>
      refine (hitem done).bind fun done => skipBlanks.bind fun _ => cursor.bind fun here => ?_
      split
      · exact hunclosed
      · split_ifs
        · refine (advance 1).bind fun _ => skipBlanks.bind fun _ => cursor.bind fun later => ?_
          split_ifs
          · exact (advance 1).bind fun _ => pure _
          · exact ih done
        · exact (advance 1).bind fun _ => pure _
        · exact fail (hend _)

theorem list {empty : σ} : Grounded constants (Reader.list close unclosed endExpected item empty) := by
  refine (advance 1).bind fun _ => skipBlanks.bind fun _ => cursor.bind fun here => ?_
  split_ifs
  · exact (advance 1).bind fun _ => pure _
  · exact items hunclosed hend hitem _ _

end List

end Grounded

/-- The readers of nested tags and of braces are grounded. -/
structure Inner.Grounded (constants : Constants) (inner : Inner) : Prop where
  tag : Reader.Grounded constants inner.tag
  braces : Reader.Grounded constants inner.braces

namespace Grounded

variable {setting : Setting} {inner : Inner} (hinner : inner.Grounded setting.constants)

include hinner

theorem value : Grounded setting.constants (Reader.value setting inner) := by
  refine cursor.bind fun start => ?_
  split
  · exact fail trivial
  · exact string.bind fun _ => pure _
  · exact hinner.braces
  · exact hinner.tag.bind fun _ => pure _
  · dsimp only
    split_ifs
    · exact (advance _).bind fun _ => numeralValue _
    · exact fail trivial
    · refine (advance _).bind fun _ => ?_
      split
      · exact pure _
      · rename_i hword
        exact fail (exists_constant_of_error hword)
      · exact fun _ _ => .number

theorem argument (tag : String) (done : Arguments) :
    Grounded setting.constants (Reader.argument setting inner tag done) := by
  refine cursor.bind fun start => ?_
  dsimp only
  split_ifs
  · exact hinner.tag.bind fun _ => pure _
  · exact (moveTo _).bind fun _ => (value hinner).bind fun _ => .bind (note trivial) fun _ => pure _
  · exact (moveTo _).bind fun _ => (value hinner).bind fun _ => pure _
  · exact (value hinner).bind fun _ => .bind (note trivial) fun _ => pure _

theorem tagBehind (tag : String) (offset : Nat) :
    Grounded setting.constants (Reader.tagBehind setting inner tag offset) := by
  refine cursor.bind fun behind => ?_
  dsimp only
  split_ifs
  · refine (moveTo _).bind fun _ => .bind (list ?_ ?_ (argument hinner tag)) fun _ => pure _
    · exact fail trivial
    · exact fun _ => trivial
  · exact (pure _).bind fun _ => pure _

theorem tag (nested : Bool) : Grounded setting.constants (Reader.tag setting inner nested) := by
  refine cursor.bind fun start => ?_
  dsimp only
  split_ifs
  · exact fail trivial
  · exact (advance _).bind fun _ => .bind (note trivial) fun _ => tagBehind hinner _ _
  · exact (advance _).bind fun _ => tagBehind hinner _ _

theorem entry (done : Entries) : Grounded setting.constants (Reader.entry setting inner done) := by
  refine skipBlanks.bind fun _ => entryKey?.bind fun key => skipBlanks.bind fun _ =>
    (value hinner).bind fun given => ?_
  cases key with
  | none => exact pure _
  | some key => exact pure _

theorem braces : Grounded setting.constants (Reader.braces setting inner) := by
  refine cursor.bind fun start => .bind (list ?_ ?_ (entry hinner)) fun found => ?_
  · exact fail trivial
  · exact fun _ => trivial
  split_ifs
  · exact .bind (note trivial) fun _ => pure _
  · exact pure _
  · exact .bind (note trivial) fun _ => pure _
  · exact pure _

end Grounded

theorem levels_grounded (setting : Setting) (depth : Nat) : (levels setting depth).Grounded setting.constants := by
  induction depth with
  | zero => exact ⟨Grounded.cursor.bind fun _ => .fail trivial, Grounded.cursor.bind fun _ => .fail trivial⟩
  | succ depth ih => exact ⟨Grounded.tag ih true, Grounded.braces ih⟩

theorem topTag_grounded (setting : Setting) : Grounded setting.constants (topTag setting) :=
  Grounded.tag (levels_grounded setting _) false

end Reader

section Lines

variable {setting : Setting}

theorem grounded_of_readCandidate {candidate : Candidate} {outcome : Outcome}
    (h : readCandidate setting candidate = .ok outcome) :
    ∀ problem ∈ outcome.issues, problem.1.Grounded setting.constants := by
  rw [readCandidate] at h
  split_ifs at h
  · have hresult := Reader.topTag_grounded setting { cursor := candidate.start } (List.forall_mem_nil _)
    rw [readTag] at h
    generalize (Reader.topTag setting).run { cursor := candidate.start } = result at h hresult
    cases hresult with
    | ok hlater =>
        obtain rfl := Except.ok.inj h
        dsimp only
        split_ifs
        · exact List.forall_mem_cons.mpr ⟨trivial, hlater⟩
        · exact List.forall_mem_cons.mpr ⟨trivial, hlater⟩
        · exact hlater
    | issue hissue =>
        obtain rfl := Except.ok.inj h
        exact List.forall_mem_singleton.mpr hissue
    | number => cases h
  · obtain rfl := Except.ok.inj h
    rw [readBare]
    split_ifs
    · exact List.forall_mem_nil _
    · exact List.forall_mem_singleton.mpr trivial
    · exact List.forall_mem_nil _

theorem grounded_of_readLines {lines : List Cursor} {resume : Resume} {nodes : List Node}
    {issues : List (Issue × Nat)} (h : readLines setting resume lines = .ok (nodes, issues)) :
    ∀ problem ∈ issues, problem.1.Grounded setting.constants := by
  induction lines generalizing resume nodes issues with
  | nil =>
      obtain ⟨-, rfl⟩ := Prod.mk.inj (Except.ok.inj h)
      exact List.forall_mem_nil _
  | cons line rest ih =>
      rw [readLines] at h
      split at h
      · exact ih h
      · obtain ⟨outcome, houtcome, h⟩ := Result.bind_eq_ok_iff.mp h
        obtain ⟨⟨laterNodes, laterIssues⟩, hbehind, h⟩ := Result.bind_eq_ok_iff.mp h
        obtain ⟨-, rfl⟩ := Prod.mk.inj (Except.ok.inj h)
        exact List.forall_mem_append.mpr ⟨grounded_of_readCandidate houtcome, ih hbehind⟩

/-- The faults of a block that have to do with constants are accounted for by the table. -/
theorem grounded_of_parse {constants : Constants} {block : Block} {nodes : List Node}
    {errors : List ParseError} (h : parse constants block = .ok (nodes, errors)) :
    ∀ error ∈ errors, error.issue.Grounded constants := by
  obtain ⟨⟨found, issues⟩, hlines, hrest⟩ := Result.bind_eq_ok_iff.mp h
  obtain ⟨-, rfl⟩ := Prod.mk.inj (Except.ok.inj hrest)
  exact List.forall_mem_map.mpr (grounded_of_readLines hlines)

end Lines

end Annotation

namespace Settings

/-- Every value of a table may be a constant. -/
def Fit (constants : List (String × Datum)) : Prop :=
  ∀ entry ∈ constants, unfit? entry.2 = none

theorem fit_of_constantsOf {value : Option Datum} {constants : List (String × Datum)}
    (h : constantsOf value = .ok constants) : Fit constants := by
  rw [constantsOf.eq_def] at h
  split at h
  · obtain rfl := Except.ok.inj h
    exact List.forall_mem_nil _
  · obtain rfl := Except.ok.inj h
    exact List.forall_mem_nil _
  · obtain ⟨named, -, h⟩ := Result.bind_eq_ok_iff.mp h
    dsimp only at h
    split at h
    · rename_i hfind
      obtain rfl := Except.ok.inj h
      intro entry hentry
      rw [← Option.not_isSome_iff_eq_none]
      exact List.find?_eq_none.mp hfind entry hentry
    · split_ifs at h
  · exact absurd h nofun

theorem fit_of_ofDatum {root : Path} {value : Datum} {settings : Settings}
    (h : ofDatum root value = .ok settings) : Fit settings.constants := by
  rw [ofDatum] at h
  split_ifs at h
  · exact absurd h nofun
  obtain ⟨sources, -, h⟩ := Result.bind_eq_ok_iff.mp h
  obtain ⟨constants, hconstants, h⟩ := Result.bind_eq_ok_iff.mp h
  obtain ⟨info, -, h⟩ := Result.bind_eq_ok_iff.mp h
  obtain ⟨output, -, h⟩ := Result.bind_eq_ok_iff.mp h
  obtain ⟨cache, -, h⟩ := Result.bind_eq_ok_iff.mp h
  dsimp only at h
  split_ifs at h
  · exact absurd h nofun
  obtain ⟨detectors, -, h⟩ := Result.bind_eq_ok_iff.mp h
  obtain rfl := Except.ok.inj h
  exact fit_of_constantsOf hconstants

theorem fit_of_ofContent {root : Path} {file : String} {content : List UInt8} {settings : Settings}
    (h : ofContent root file content = .ok settings) : Fit settings.constants := by
  rw [ofContent] at h
  split at h
  · obtain ⟨chars, -, h⟩ := Result.bind_eq_ok_iff.mp h
    dsimp only at h
    split_ifs at h
    · exact fit_of_ofDatum h
    · split at h
      · exact fit_of_ofDatum h
      · exact fit_of_ofDatum h
      · exact absurd h nofun
      · exact absurd h nofun
  · exact absurd h nofun

/-- The constants of a project are values that may be constants, wherever its settings come from. -/
theorem fit_of_load {directory path : Path} {tree : FileTree} {settings : Settings}
    (h : load directory tree path = .ok settings) : Fit settings.constants := by
  rw [load] at h
  split at h
  · exact absurd h nofun
  · obtain rfl := Except.ok.inj h
    exact List.forall_mem_nil _
  · split at h
    · exact fit_of_ofContent h
    · exact absurd h nofun

theorem load_of_read {directory path file : Path} {tree part : FileTree} {content : List UInt8}
    (hfile : fileFor directory tree path = .ok file) (hlook : tree.look file = .ok (some part))
    (hread : tree.read file = .ok content) :
    load directory tree path = ofContent file.parent file.name content := by
  have hfound : (do let file ← fileFor directory tree path; return (file, ← tree.look file)) =
      Except.ok (file, some part) := by
    rw [hfile]
    change (do return (file, ← tree.look file)) = _
    rw [hlook]
    rfl
  rw [load, hfound]
  dsimp only
  rw [hread]

theorem ofContent_encode {root : Path} {file text : String} {entries : List (Datum × Datum)}
    (hblank : (Text.trim (Text.unifyNewlines text.toList)).isEmpty = false)
    (hread : Yaml.read (String.ofList (Text.unifyNewlines text.toList)) = .ok (.map entries)) :
    ofContent root file (Text.encode text) = ofDatum root (.map entries) := by
  rw [ofContent, Text.decode_encode]
  change (if (Text.trim (Text.unifyNewlines text.toList)).isEmpty then _ else _) = _
  rw [hblank, hread]
  rfl

end Settings

namespace Yaml

/-- The nodes of a text with one constant. -/
def levelGraph : Graph where
  nodes := #[⟨standardTag "map", .entries [(1, 2)]⟩, ⟨standardTag "str", .scalar "constants"⟩,
    ⟨standardTag "map", .entries [(3, 4)]⟩, ⟨standardTag "str", .scalar "LEVEL"⟩,
    ⟨standardTag "str", .scalar "low"⟩]
  root := 0

theorem value_levelGraph :
    levelGraph.value = .ok (.map [(.text "constants", .map [(.text "LEVEL", .text "low")])]) := by
  have hplain : ∀ number ∈ [1, 3], IsPlainKey levelGraph.nodes number := by decide
  let maker (made : List (Option Made)) (filled : List (Option Filling)) : Maker :=
    { nodes := levelGraph.nodes, made := made.toArray, filled := filled.toArray }
  let start := maker [some (.collection 0), none, none, none, none] [none, none, none, none, none]
  let between := maker [some (.collection 0), some (.plain (.text "constants")), some (.collection 2), none, none]
    [some (.map [(.text "constants", .collection 2)]), none, none, none, none]
  let final := maker
    [some (.collection 0), some (.plain (.text "constants")), some (.collection 2), some (.plain (.text "LEVEL")),
      some (.plain (.text "low"))]
    [some (.map [(.text "constants", .collection 2)]), none, some (.map [(.text "LEVEL", .plain (.text "low"))]),
      none, none]
  have hroot : (Make.make 0).run (.ofGraph levelGraph) = .ok (.collection 0, { start with pending := [0] }) := rfl
  have hfirst : (Make.fill 0).run start = .ok ((), { between with pending := [2] }) :=
    @Make.run_fill 0 start { between with filled := start.filled, pending := [2] } _ [(1, 2)] rfl
      (List.forall_mem_singleton.mpr (hplain 1 (by decide))) _ rfl rfl
  have hsecond : (Make.fill 2).run between = .ok ((), final) :=
    @Make.run_fill 2 between { final with filled := between.filled } _ [(3, 4)] rfl
      (List.forall_mem_singleton.mpr (hplain 3 (by decide))) _ rfl rfl
  have hfill : (Make.fillAll 6).run { start with pending := [0] } = .ok ((), final) :=
    (Make.run_fillAll rfl hfirst).trans
      (@Make.run_fillAll 4 2 { between with pending := [2] } final rfl hsecond)
  have hrun : (Make.root levelGraph.root).run (.ofGraph levelGraph) = .ok (.collection 0, final) :=
    Make.run_root hroot hfill
  rw [Graph.value, hrun]
  rfl

theorem read_level :
    read "constants: {LEVEL: low}" = .ok (.map [(.text "constants", .map [(.text "LEVEL", .text "low")])]) := by
  have hgraph : Graph.ofText? (Text.unifyNewlines "constants: {LEVEL: low}".toList) = .ok (some levelGraph) := by
    have hparts : Option.map (fun graph => (graph.nodes, graph.root)) <$>
        Graph.ofText? (Text.unifyNewlines "constants: {LEVEL: low}".toList) =
          .ok (some (levelGraph.nodes, levelGraph.root)) := by
      decide +kernel
    obtain ⟨found, hfound, hsome⟩ := Result.map_eq_ok_iff.mp hparts
    obtain ⟨⟨nodes, root⟩, rfl, hgraph⟩ := Option.map_eq_some_iff.mp hsome
    obtain ⟨rfl, rfl⟩ := Prod.mk.inj hgraph
    exact hfound
  rw [Yaml.read, if_neg (by decide +kernel), hgraph]
  exact value_levelGraph

end Yaml

/-- Settings with one constant, in their file. -/
theorem Settings.load_level :
    ∃ settings, Settings.load ⟨"/", ["p"]⟩ (.directory [("p", .directory
        [(Settings.fileName, .file (Text.encode "constants: {LEVEL: low}") 0)])]) ⟨"", []⟩ = .ok settings ∧
      settings.constants = [("LEVEL", .text "low")] := by
  refine ⟨{ Settings.standard ⟨"/", ["p"]⟩ with constants := [("LEVEL", .text "low")] }, ?_, rfl⟩
  have hchars : String.ofList (Text.unifyNewlines "constants: {LEVEL: low}".toList) = "constants: {LEVEL: low}" := by
    decide +kernel
  have hread := Yaml.read_level
  rw [← hchars] at hread
  rw [@Settings.load_of_read _ _ ⟨"/", ["p", Settings.fileName]⟩ _ _ _ rfl rfl rfl,
    Settings.ofContent_encode (by decide +kernel) hread]
  rfl

namespace Annotation

section Fit

variable {constants : Constants} (h : Settings.Fit constants)

include h

/-- In a table of values that may be constants there is none of an unsupported kind. -/
theorem Value.ofDatum_ne_unsupported {name : String} {datum : Datum} (hget : constants.get? name = some datum)
    (kind : String) : Value.ofDatum datum ≠ .error (.unsupported kind) :=
  (Liftable.iff_haveTexts (h _ (OrderedMap.mem_of_get? hget))).2 kind

theorem Reader.wordValue_ne_unsupported (word kind : String) :
    wordValue constants word ≠ .error (.unsupported kind) := by
  intro hword
  obtain ⟨datum, hget, hdatum⟩ := exists_constant_of_error hword
  exact Value.ofDatum_ne_unsupported h hget kind hdatum

theorem Issue.Grounded.ne_unsupportedConstant {issue : Issue} (hissue : issue.Grounded constants)
    (name kind : String) : issue ≠ .unsupportedConstant name kind := by
  rintro rfl
  obtain ⟨datum, hget, hdatum⟩ := hissue
  exact Value.ofDatum_ne_unsupported h hget kind hdatum

end Fit

/-- Constants can be lifted. A value that may be a constant can be lifted exactly when the keys in it have texts,
and is never refused for its kind; so for the constants of loaded settings no word and no block is reported as a
constant of an unsupported kind. When the keys of each mapping in a value have different texts, lowering gives
the value back with these texts as keys. -/
theorem constants_lift :
    (∀ datum, Settings.unfit? datum = none →
      ((∃ value, Value.ofDatum datum = .ok value) ↔ datum.haveTexts = true) ∧
        ∀ kind, Value.ofDatum datum ≠ .error (.unsupported kind)) ∧
    (∀ directory tree path settings, Settings.load directory tree path = .ok settings →
      (∀ word kind, Reader.wordValue settings.constants word ≠ .error (.unsupported kind)) ∧
        ∀ block nodes errors, parse settings.constants block = .ok (nodes, errors) →
          ∀ error ∈ errors, ∀ name kind, error.issue ≠ .unsupportedConstant name kind) ∧
    (∀ datum, Settings.unfit? datum = none → datum.haveTexts = true → datum.DistinctTexts →
      ∀ location, ∃ value, Value.ofDatum datum = .ok value ∧
        value.toDatum? location = some datum.withTextKeys) := by
  refine ⟨fun datum hfit => Liftable.iff_haveTexts hfit, fun directory tree path settings hload => ?_,
    fun datum hfit htexts hdistinct location => ?_⟩
  · have hfit := Settings.fit_of_load hload
    exact ⟨Reader.wordValue_ne_unsupported hfit, fun block nodes errors hparse error herror =>
      Issue.Grounded.ne_unsupportedConstant hfit (grounded_of_parse hparse error herror)⟩
  · obtain ⟨value, hvalue⟩ := Liftable.of_fit datum hfit htexts
    exact ⟨value, hvalue, Value.toDatum?_ofDatum location datum hfit hdistinct value hvalue⟩

/-- The general theorem for a mapping with keys of several kinds, and for settings with one constant. -/
theorem constants_lift_limits :
    let limits : Datum := .map [(.int 1, .list [.text "low", .bool true]), (.text "b", .map [(.null, .int 2)])]
    let block : Block :=
      { source := "api.php", symbol := .ofFile "api.php", startLine := 1, startColumn := 1, endLine := 1
        text := "@Get(path=LEVEL, 1)" }
    (∀ kind, Value.ofDatum limits ≠ .error (.unsupported kind)) ∧
    (∃ value, Value.ofDatum limits = .ok value ∧ value.toDatum? none = some
      (.map [(.text "1", .list [.text "low", .bool true]), (.text "b", .map [(.text "None", .int 2)])])) ∧
    ∃ directory tree path settings, Settings.load directory tree path = .ok settings ∧
      settings.constants = [("LEVEL", .text "low")] ∧
      (∀ kind, Reader.wordValue settings.constants "LEVEL" ≠ .error (.unsupported kind)) ∧
      ∃ nodes error, parse settings.constants block = .ok (nodes, [error]) ∧
        ∀ name kind, error.issue ≠ .unsupportedConstant name kind := by
  intro limits block
  obtain ⟨hlift, hsettings, hlower⟩ := constants_lift
  have hone : (Datum.int 1).asText = .text "1" := congrArg Datum.text (by decide +kernel)
  have hnull : Datum.null.asText = .text "None" := rfl
  have htext : (Datum.text "b").asText = .text "b" := rfl
  have hdistinct : limits.DistinctTexts := by
    simp [limits, Datum.DistinctTexts, Datum.EntriesDistinctTexts, Datum.ItemsDistinctTexts, hone, htext]
  have hfit : Settings.unfit? limits = none := rfl
  obtain ⟨value, hvalue, hdatum⟩ := hlower limits hfit (by decide +kernel) hdistinct none
  simp only [limits, Datum.withTextKeys, Datum.entriesWithTextKeys, Datum.itemsWithTextKeys, hone, hnull,
    htext] at hdatum
  obtain ⟨settings, hload, hconstants⟩ := Settings.load_level
  obtain ⟨hword, hblock⟩ := hsettings _ _ _ _ hload
  have hone : (fun found => found.2.length) <$> parse settings.constants block = .ok 1 := by
    rw [hconstants]
    decide +kernel
  obtain ⟨⟨nodes, errors⟩, hparse, hlength⟩ := Result.map_eq_ok_iff.mp hone
  obtain ⟨error, rfl⟩ := List.length_eq_one_iff.mp hlength
  have hunreachable := hblock block nodes [error] hparse error (List.mem_singleton_self error)
  exact ⟨(hlift limits hfit).2, ⟨value, hvalue, hdatum⟩, _, _, _, settings, hload, hconstants, hword "LEVEL",
    nodes, error, hparse, hunreachable⟩

/-- A mapping with a whole number as a key that is too long to have a text may be a constant and cannot be
lifted. -/
theorem unliftable_of_longKey :
    let limits : Datum := .map [(.int (tenTo 4300), .null)]
    Settings.unfit? limits = none ∧ ∀ value, Value.ofDatum limits ≠ .ok value := by
  intro limits
  rw [Value.ofDatum_of_not_haveTexts limits rfl (by decide +kernel)]
  exact ⟨rfl, nofun⟩

end Annotation

end DocCompiler
