import DocCompiler.Cache.Store
import DocCompiler.Proofs.Annotation.Sorted
import DocCompiler.Proofs.Json.Line

/-!
What a signature tells apart. Tables whose mappings have texts as keys have a signature, and tables with
the same signed text differ in the order of entries only. A key that is no text is signed like its text.
-/

namespace DocCompiler

open Annotation

/-- The table of constants in the settings has distinct names. -/
theorem Settings.nodup_of_constantsOf {value : Option Datum} {constants : Constants}
    (h : constantsOf value = .ok constants) : (constants.map (·.1)).Nodup := by
  have hfold (named : List (String × Datum)) : ∀ table : OrderedMap Datum, (table.map (·.1)).Nodup →
      ((named.foldl (fun table entry => OrderedMap.put entry.1 entry.2 table) table).map (·.1)).Nodup := by
    induction named with
    | nil => exact fun table htable => htable
    | cons entry named ih => exact fun table htable => ih _ (OrderedMap.nodup_names_put htable)
  unfold constantsOf at h
  split at h
  · obtain rfl := Except.ok.inj h
    exact List.nodup_nil
  · obtain rfl := Except.ok.inj h
    exact List.nodup_nil
  · obtain ⟨named, -, h⟩ := Result.bind_eq_ok_iff.mp h
    dsimp only at h
    split at h
    · obtain rfl := Except.ok.inj h
      exact hfold named [] List.nodup_nil
    · split_ifs at h
  · exact absurd h nofun

namespace Cache

theorem signed_plain (detectors : List Detector) {constants : Constants}
    (h : ∀ entry ∈ constants, entry.2.Plain) : (signed detectors constants).Plain := by
  have hmarks (marks : List String) : Datum.AllPlain (marks.map .text) := by
    rw [Datum.allPlain_iff]
    simp [Datum.Plain]
  have hconstants : Datum.EntriesPlain (constants.map fun entry => (Datum.text entry.1, entry.2)) := by
    rw [Datum.entriesPlain_iff, List.forall_mem_map]
    exact fun entry hentry => ⟨⟨_, rfl⟩, h entry hentry⟩
  exact ⟨⟨_, rfl⟩, ⟨rfl, trivial⟩, ⟨_, rfl⟩, hmarks _, ⟨_, rfl⟩, hconstants, trivial⟩

/-- The style that signatures are written in. -/
theorem signedText_eq (detectors : List Detector) (constants : Constants) :
    signedText detectors constants = Json.write Json.lineStyle (signed detectors constants) :=
  rfl

/-- Entries that are sorted alike are the same up to their order. -/
theorem perm_of_mergeSort_eq {entries others : List (Datum × Datum)}
    (h : entries.mergeSort Datum.entryLe = others.mergeSort Datum.entryLe) : entries.Perm others := by
  have hentries := List.mergeSort_perm entries Datum.entryLe
  rw [h] at hentries
  exact hentries.symm.trans (List.mergeSort_perm others Datum.entryLe)

/-- The entries of a table as they are signed. -/
def signedEntries (constants : Constants) : List (Datum × Datum) :=
  constants.map fun entry => (.text entry.1, entry.2.sorted)

theorem sorted_record (constants : Constants) :
    (Datum.record constants).sorted = .map ((signedEntries constants).mergeSort Datum.entryLe) := by
  rw [Datum.record, Datum.sorted, Datum.sortedEntries_eq_map, List.map_map]
  rfl

/-- Tables that are signed alike have the same entries, up to the order of entries. -/
theorem perm_of_sorted_eq {detectors : List Detector} {constants others : Constants}
    (h : (signed detectors constants).sorted = (signed detectors others).sorted) :
    (signedEntries constants).Perm (signedEntries others) := by
  have hrecord : (Datum.record constants).sorted = (Datum.record others).sorted := by
    have hperm := perm_of_mergeSort_eq (Datum.map.inj h)
    have hmem : (Datum.text "constants", (Datum.record constants).sorted) ∈ Datum.sortedEntries
        [(.text "format", .int formNumber),
          (.text "detectors", .list (((detectors.map detectorMark).mergeSort fun a b => decide (a ≤ b)).map .text)),
          (.text "constants", Datum.record others)] :=
      hperm.subset (by simp [Datum.sortedEntries])
    simpa [Datum.sortedEntries] using hmem
  rw [sorted_record, sorted_record] at hrecord
  exact perm_of_mergeSort_eq (Datum.map.inj hrecord)

theorem get?_sorted_iff {constants : Constants} (hnodup : (constants.map (·.1)).Nodup) {name : String}
    {value : Datum} : (OrderedMap.get? constants name).map Datum.sorted = some value ↔
      (Datum.text name, value) ∈ signedEntries constants := by
  rw [signedEntries, List.mem_map, Option.map_eq_some_iff]
  constructor
  · rintro ⟨found, hfound, rfl⟩
    exact ⟨(name, found), OrderedMap.mem_of_get? hfound, rfl⟩
  · rintro ⟨⟨other, found⟩, hmem, hentry⟩
    obtain ⟨hname, rfl⟩ := Prod.mk.inj hentry
    obtain rfl := Datum.text.inj hname
    exact ⟨found, OrderedMap.get?_of_mem hnodup hmem, rfl⟩

/-- Tables with the same signed text have the same values under each name, up to the order of entries. -/
theorem get?_sorted_eq {detectors : List Detector} {constants others : Constants}
    (hnodup : (constants.map (·.1)).Nodup) (hnodup' : (others.map (·.1)).Nodup)
    (h : (signed detectors constants).sorted = (signed detectors others).sorted) (name : String) :
    (OrderedMap.get? constants name).map Datum.sorted = (OrderedMap.get? others name).map Datum.sorted := by
  refine Option.ext fun value => ?_
  rw [get?_sorted_iff hnodup, get?_sorted_iff hnodup', (perm_of_sorted_eq h).mem_iff]

theorem constantValue_of_plain {constants : Constants} (hplain : ∀ entry ∈ constants, entry.2.Plain)
    (name : String) :
    constantValue constants name = ((OrderedMap.get? constants name).map lifted).getD (.constant name) := by
  cases hget : OrderedMap.get? constants name with
  | none => exact constantValue_of_get?_eq_none hget
  | some datum =>
      have hdatum := hplain _ (OrderedMap.mem_of_get? hget)
      exact constantValue_of_get? hget (ofDatum_of_plain datum hdatum)

/-- Tables with the same values up to the order of entries agree up to that order. -/
theorem agreeOn_of_get?_eq {constants others : Constants} (hplain : ∀ entry ∈ constants, entry.2.Plain)
    (hplain' : ∀ entry ∈ others, entry.2.Plain)
    (h : ∀ name, (OrderedMap.get? constants name).map Datum.sorted =
      (OrderedMap.get? others name).map Datum.sorted) : AgreeOn constants others := by
  intro name
  have hname := h name
  rw [constantValue_of_plain hplain, constantValue_of_plain hplain']
  cases hget : OrderedMap.get? constants name with
  | none =>
      rw [hget, Option.map_none, eq_comm, Option.map_eq_none_iff] at hname
      rw [hname]
  | some datum =>
      rw [hget, Option.map_some, eq_comm, Option.map_eq_some_iff] at hname
      obtain ⟨other, hother, hsorted⟩ := hname
      rw [hother]
      change (lifted datum).sorted = (lifted other).sorted
      rw [← lifted_sorted datum (hplain _ (OrderedMap.mem_of_get? hget)), ← hsorted,
        lifted_sorted other (hplain' _ (OrderedMap.mem_of_get? hother))]

/-- Where the mappings in a table have texts as keys, the table has a signature, and tables with the same
signed text lead to the same annotations, up to the order of entries, and to the same faults. When the
entries of all mappings are in order, the annotations are the same. -/
theorem signedText_sound {detectors : List Detector} {value value' : Option Datum}
    {constants others : Constants} (hvalue : Settings.constantsOf value = .ok constants)
    (hvalue' : Settings.constantsOf value' = .ok others)
    (hplain : ∀ entry ∈ constants, entry.2.Plain) (hplain' : ∀ entry ∈ others, entry.2.Plain) :
    (∃ text, signedText detectors constants = .ok text) ∧
      (signedText detectors constants = signedText detectors others →
        (∀ block, (parse constants block).map sortedParse = (parse others block).map sortedParse) ∧
        ((∀ entry ∈ constants, entry.2.sorted = entry.2) → (∀ entry ∈ others, entry.2.sorted = entry.2) →
          ∀ block, parse constants block = parse others block)) := by
  refine ⟨⟨_, Json.writeAt_eq _ (signed_plain detectors hplain) 0⟩, fun hsigned => ?_⟩
  have hsorted := Json.sorted_eq_of_write_eq (signed_plain detectors hplain)
    (signed_plain detectors hplain') hsigned
  have hget := get?_sorted_eq (Settings.nodup_of_constantsOf hvalue)
    (Settings.nodup_of_constantsOf hvalue') hsorted
  refine ⟨sortedParse_eq hplain hplain' (agreeOn_of_get?_eq hplain hplain' hget), ?_⟩
  intro horder horder'
  refine parse_congr hplain hplain' fun name => ?_
  have hself {constants : Constants} (h : ∀ entry ∈ constants, entry.2.sorted = entry.2) :
      (OrderedMap.get? constants name).map Datum.sorted = OrderedMap.get? constants name := by
    cases hfound : OrderedMap.get? constants name with
    | none => rfl
    | some datum => exact congrArg some (h _ (OrderedMap.mem_of_get? hfound))
  have hname := hget name
  rw [hself horder, hself horder'] at hname
  rw [constantValue_of_plain hplain, constantValue_of_plain hplain', hname]

/-- The general theorem for two tables that differ in the order of two limits. -/
theorem signedText_sound_limits :
    let constants : Constants := [("LIMITS", .map [(.text "b", .int 1), (.text "a", .bool true)])]
    let others : Constants := [("LIMITS", .map [(.text "a", .bool true), (.text "b", .int 1)])]
    let block : Block :=
      { source := "api.php", symbol := .ofFile "api.php", startLine := 1, startColumn := 1, endLine := 1
        text := "@Get(path=LIMITS)" }
    (∃ text, signedText [] constants = .ok text) ∧
      (signedText [] constants = signedText [] others →
        (parse constants block).map sortedParse = (parse others block).map sortedParse) := by
  intro constants others block
  have hplain (first second : Datum × Datum) (hfirst : Datum.EntriesPlain [first, second]) :
      ∀ entry ∈ [("LIMITS", Datum.map [first, second])], entry.2.Plain := by
    simpa [Datum.Plain] using hfirst
  have hsound := @signedText_sound []
    (some (.map [(.text "LIMITS", .map [(.text "b", .int 1), (.text "a", .bool true)])]))
    (some (.map [(.text "LIMITS", .map [(.text "a", .bool true), (.text "b", .int 1)])]))
    constants others rfl rfl
    (hplain _ _ ⟨⟨_, rfl⟩, ⟨rfl, trivial⟩, ⟨_, rfl⟩, trivial, trivial⟩)
    (hplain _ _ ⟨⟨_, rfl⟩, trivial, ⟨_, rfl⟩, ⟨rfl, trivial⟩, trivial⟩)
  exact ⟨hsound.1, fun hsigned => (hsound.2 hsigned).1 block⟩

theorem signedText_congr {name : String} {a b : Datum}
    (h : ∀ level, Json.writeAt Json.lineStyle level a = Json.writeAt Json.lineStyle level b) :
    signedText [] [(name, a)] = signedText [] [(name, b)] := by
  simp only [signedText_eq, signed, Datum.record, List.map_cons, List.map_nil, Json.write, Json.writeAt,
    Json.writeEntries, h]

/-- The first key of the mapping that the first annotation has as its first attribute. -/
def firstKey? : Except LongNumber (List Node × List ParseError) → Option String
  | .ok (⟨_, (_, .mapping ((.text key, _) :: _)) :: _, _, _, _⟩ :: _, _) => some key
  | _ => none

/-- A key that is no text is signed like a text that annotations do not give it: a truth value is signed
in lower case and read as a word in upper case. Such tables are signed alike and read differently. -/
theorem signedText_unsound_of_flag :
    let constants : Constants := [("FLAGS", .map [(.bool true, .int 1)])]
    let others : Constants := [("FLAGS", .map [(.text "true", .int 1)])]
    Settings.constantsOf (some (.map [(.text "FLAGS", .map [(.bool true, .int 1)])])) = .ok constants ∧
      Settings.constantsOf (some (.map [(.text "FLAGS", .map [(.text "true", .int 1)])])) = .ok others ∧
      signedText [] constants = signedText [] others ∧
      ∃ block, parse constants block ≠ parse others block := by
  intro constants others
  refine ⟨rfl, rfl, ?_, { source := "api.php", symbol := .ofFile "api.php", startLine := 1
                          startColumn := 1, endLine := 1, text := "@Get(path=FLAGS)" }, fun h => ?_⟩
  · refine signedText_congr fun level => ?_
    have hone (key : Datum) (text : String) : Json.lineStyle.arrange [(key, text)] = .ok [text] := by
      simp [Json.Style.arrange, Json.lineStyle, Json.sortable]
    have hwritten (key : Datum) (hkey : Json.writeKey true key = .ok (Json.writeString true "true")) :
        Json.writeAt Json.lineStyle level (.map [(key, .int 1)]) =
          .ok (Json.lineStyle.enclose level "\x7b" "\x7d" [Json.writeString true "true" ++ ": " ++ "1"]) := by
      have hentries : Json.writeEntries Json.lineStyle (level + 1) [(key, .int 1)] =
          .ok [(key, Json.writeString true "true" ++ ": " ++ "1")] := by
        have hstyle : Json.lineStyle.ascii = true := rfl
        rw [Json.writeEntries, hstyle, hkey]
        rfl
      rw [Json.writeAt, hentries]
      change (Json.lineStyle.arrange [_] >>= fun members => pure _) = _
      rw [hone]
      rfl
    rw [hwritten (.bool true) rfl, hwritten (.text "true") rfl]
  · have hkey := congrArg firstKey? h
    exact absurd hkey (by decide +kernel)

end Cache

end DocCompiler
