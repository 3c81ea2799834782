import DocCompiler.Compile.Unit
import DocCompiler.Proofs.Data.Registry
import DocCompiler.Proofs.Data.Result
import DocCompiler.Proofs.File.Tree

/-!
Damaged caches. A file that is not written as caches are is dropped as a whole, unless it is no text, or
holds a whole number that is too long or values that are nested too deep. An entry that no unit can be made
of is a miss, is dropped, and is not written again, unless an infinite number stands in it or something
else than a mapping stands for a diagnostic.
-/

namespace DocCompiler

open Annotation

namespace Datum

mutual

/-- Whether no infinite number stands in a value, at any depth. -/
def isFinite : Datum → Bool
  | .number (.float (.infinite _)) => false
  | .list items | .set items => areFinite items
  | .map entries => haveFinite entries
  | .pair first second => isFinite first && isFinite second
  | _ => true

/-- Whether no infinite number stands in any of some items. -/
def areFinite : List Datum → Bool
  | [] => true
  | item :: rest => isFinite item && areFinite rest

/-- Whether no infinite number stands in any key or value of entries. -/
def haveFinite : List (Datum × Datum) → Bool
  | [] => true
  | (key, item) :: rest => isFinite key && isFinite item && haveFinite rest

end

theorem areFinite_iff {items : List Datum} : areFinite items = true ↔ ∀ item ∈ items, item.isFinite = true := by
  induction items with
  | nil => simp [areFinite]
  | cons item rest ih => simp [areFinite, ih]

theorem haveFinite_iff {entries : List (Datum × Datum)} :
    haveFinite entries = true ↔ ∀ entry ∈ entries, entry.1.isFinite = true ∧ entry.2.isFinite = true := by
  induction entries with
  | nil => simp [haveFinite]
  | cons entry rest ih =>
      obtain ⟨key, item⟩ := entry
      simp only [haveFinite, Bool.and_eq_true, ih, List.forall_mem_cons]

theorem isFinite_ofCodes (points : List Nat) : (ofCodes points).isFinite = true := by
  unfold ofCodes
  split <;> rfl

variable {value item : Datum} {items : List Datum} {name : String}

theorem isMap_of_entry (h : value.entry name = .ok item) : value.isMap = true := by
  unfold entry at h
  split at h
  · rfl
  · cases h

theorem isFinite_lookup {entries : List (Datum × Datum)} (hfinite : haveFinite entries = true)
    (h : lookup (.text name) entries = some item) : item.isFinite = true := by
  obtain ⟨key, -, hmem⟩ := mem_of_lookup_eq_some h
  exact (haveFinite_iff.mp hfinite _ hmem).2

theorem isFinite_found {default : Datum} {found : Option Datum} (hfinite : value.isFinite = true)
    (hdefault : default.isFinite = true) (h : value.entry? name = .ok found) :
    (found.getD default).isFinite = true := by
  unfold entry? at h
  split at h
  · cases h
    cases hfound : lookup (.text name) _ with
    | none => exact hdefault
    | some item => exact isFinite_lookup hfinite hfound
  · cases h

theorem isFinite_members (hfinite : value.isFinite = true) (h : value.members = .ok items) :
    ∀ item ∈ items, item.isFinite = true := by
  unfold members at h
  split at h <;> cases h
  · exact areFinite_iff.mp hfinite
  · exact areFinite_iff.mp hfinite
  · intro item hitem
    obtain ⟨entry, hentry, rfl⟩ := List.mem_map.mp hitem
    exact (haveFinite_iff.mp hfinite entry hentry).1
  · intro item hitem
    obtain ⟨c, -, rfl⟩ := List.mem_map.mp hitem
    rfl
  · intro item hitem
    obtain ⟨code, -, rfl⟩ := List.mem_map.mp hitem
    exact isFinite_ofCodes [code]
  · intro item hitem
    obtain ⟨byte, -, rfl⟩ := List.mem_map.mp hitem
    rfl
  · simpa [isFinite] using hfinite

theorem isFinite_twoMembers {first second : Datum} (hfinite : value.isFinite = true)
    (h : value.twoMembers = .ok (first, second)) : second.isFinite = true := by
  simp only [twoMembers, Result.bind_eq_ok_iff] at h
  obtain ⟨items, hitems, h⟩ := h
  split at h
  · cases h
    exact isFinite_members hfinite hitems second (by simp)
  · cases h

end Datum

namespace Cache

/-- A result that is there, or is missing for a reason that makes its entry worthless. -/
def Harmless {α : Type} (result : Except ShapeError α) : Prop :=
  ∀ error, result = .error error → isDamage error = true

section Harmless

variable {α β : Type}

theorem harmless_ok (value : α) : Harmless (.ok value) := nofun

theorem harmless_pure (value : α) : Harmless (pure value) := nofun

theorem harmless_error {error : ShapeError} (h : isDamage error = true) :
    Harmless (.error error : Except ShapeError α) := by
  rintro _ ⟨⟩
  exact h

theorem Harmless.bind {result : Except ShapeError α} {next : α → Except ShapeError β} (h : Harmless result)
    (hnext : ∀ value, result = .ok value → Harmless (next value)) : Harmless (result >>= next) := by
  cases result with
  | error error => exact harmless_error (h error rfl)
  | ok value => exact hnext value rfl

theorem harmless_mapM {read : α → Except ShapeError β} {items : List α}
    (h : ∀ item ∈ items, Harmless (read item)) : Harmless (items.mapM read) := by
  induction items with
  | nil => exact harmless_pure []
  | cons item rest ih =>
      rw [List.mapM_cons]
      refine (h item (by simp)).bind fun first _ => ?_
      refine (ih fun other hother => h other (by simp [hother])).bind fun others _ => ?_
      exact harmless_pure (first :: others)

end Harmless

variable {value : Datum} {name : String}

theorem harmless_entry (value : Datum) (name : String) : Harmless (value.entry name) := by
  unfold Datum.entry
  split
  · split
    · exact harmless_ok _
    · exact harmless_error rfl
  · exact harmless_error rfl

theorem harmless_entry?_of_isMap (h : value.isMap = true) : Harmless (value.entry? name) := by
  unfold Datum.entry?
  split
  · exact harmless_ok _
  · simp [Datum.isMap] at h

theorem harmless_members (value : Datum) : Harmless value.members := by
  unfold Datum.members
  split
  case h_8 => exact harmless_error rfl
  all_goals exact harmless_ok _

theorem harmless_twoMembers (value : Datum) : Harmless value.twoMembers := by
  refine (harmless_members value).bind fun items _ => ?_
  split
  · exact harmless_pure _
  · exact harmless_error rfl

theorem harmless_shown (value : Datum) : Harmless value.shown := by
  unfold Datum.shown
  split
  · exact harmless_ok _
  · exact harmless_error rfl

theorem harmless_optional (h : value.isMap = true) : Harmless (optional value name) :=
  (harmless_entry?_of_isMap h).bind fun _ _ => harmless_pure _

theorem harmless_several (h : value.isMap = true) : Harmless (several value name) :=
  (harmless_entry?_of_isMap h).bind fun _ _ => harmless_members _

theorem harmless_readNamed {α : Type} (ofName? : String → Option α) (value : Datum) :
    Harmless (readNamed ofName? value) := by
  unfold readNamed
  split
  · split
    · exact harmless_ok _
    · exact harmless_error rfl
  · exact harmless_error rfl

theorem harmless_readInt (hfinite : value.isFinite = true) : Harmless (readInt value) := by
  unfold readInt
  split
  -- Only an infinite number ends in an error that is no damage.
  case h_3 => simp [Datum.isFinite] at hfinite
  case h_6 =>
    split
    · exact harmless_ok _
    · exact harmless_error rfl
  case h_4 => exact harmless_error rfl
  case h_7 => exact harmless_error rfl
  all_goals exact harmless_ok _

theorem isFinite_optional {item : Datum} (hfinite : value.isFinite = true) (h : optional value name = .ok item) :
    item.isFinite = true := by
  simp only [ Annotation.optional, Result.bind_eq_ok_iff, Result.pure_eq_ok_iff] at h
  obtain ⟨found, hfound, rfl⟩ := h
  exact Datum.isFinite_found hfinite rfl hfound

theorem isFinite_several {items : List Datum} (hfinite : value.isFinite = true)
    (h : several value name = .ok items) : ∀ item ∈ items, item.isFinite = true := by
  simp only [several, Result.bind_eq_ok_iff] at h
  obtain ⟨found, hfound, hmembers⟩ := h
  exact Datum.isFinite_members (Datum.isFinite_found hfinite rfl hfound) hmembers

theorem harmless_readEntry {read : Datum → Except ShapeError Value} {member : Datum}
    (hread : ∀ item : Datum, item.isFinite = true → Harmless (read item)) (hfinite : member.isFinite = true) :
    Harmless (readEntry read member) := by
  refine (harmless_twoMembers member).bind fun two htwo => ?_
  refine (hread two.2 (Datum.isFinite_twoMembers hfinite htwo)).bind fun item _ => ?_
  exact harmless_pure _

theorem harmless_readValue_readNode (depth : Nat) :
    (∀ value : Datum, value.isFinite = true → Harmless (readValue depth value)) ∧
      ∀ value : Datum, value.isFinite = true → Harmless (readNode depth value) := by
  -- Annotations hold values, which hold annotations again, each one level less deep.
  induction depth with
  | zero => exact ⟨fun _ _ => harmless_error rfl, fun _ _ => harmless_error rfl⟩
  | succ depth ih =>
      obtain ⟨ihValue, ihNode⟩ := ih
      refine ⟨fun value hfinite => ?_, fun value hfinite => ?_⟩
      · rw [readValue]
        refine (harmless_entry value "kind").bind fun entry hentry => ?_
        refine (harmless_readNamed _ entry).bind fun kind _ => ?_
        refine (harmless_optional (Datum.isMap_of_entry hentry)).bind fun data hdata => ?_
        have hdata := isFinite_optional hfinite hdata
        cases kind with
        | leaf kind => exact harmless_pure _
        | array =>
            refine (harmless_members data).bind fun items hitems => ?_
            refine (harmless_mapM fun item hitem =>
              ihValue item (Datum.isFinite_members hdata hitems item hitem)).bind fun _ _ => ?_
            exact harmless_pure _
        | mapping =>
            refine (harmless_members data).bind fun items hitems => ?_
            refine (harmless_mapM fun item hitem =>
              harmless_readEntry ihValue (Datum.isFinite_members hdata hitems item hitem)).bind fun _ _ => ?_
            exact harmless_pure _
        | tag => exact (ihNode data hdata).bind fun _ _ => harmless_pure _
      · rw [readNode]
        refine (harmless_entry value "tag").bind fun tag htag => ?_
        have hmap := Datum.isMap_of_entry htag
        refine (harmless_several hmap).bind fun attributes hattributes => ?_
        refine (harmless_mapM fun item hitem =>
          harmless_readEntry ihValue (isFinite_several hfinite hattributes item hitem)).bind fun _ _ => ?_
        refine (harmless_several hmap).bind fun children hchildren => ?_
        refine (harmless_mapM fun item hitem =>
          ihNode item (isFinite_several hfinite hchildren item hitem)).bind fun _ _ => ?_
        refine (harmless_entry?_of_isMap hmap).bind fun line hline => ?_
        refine (harmless_readInt (Datum.isFinite_found hfinite rfl hline)).bind fun _ _ => ?_
        refine (harmless_entry?_of_isMap hmap).bind fun column hcolumn => ?_
        refine (harmless_readInt (Datum.isFinite_found hfinite rfl hcolumn)).bind fun _ _ => ?_
        exact harmless_pure _

theorem harmless_readSymbol (value : Datum) : Harmless (readSymbol value) := by
  refine (harmless_entry value "kind").bind fun entry hentry => ?_
  have hmap := Datum.isMap_of_entry hentry
  refine (harmless_readNamed _ entry).bind fun kind _ => ?_
  refine (harmless_entry value "name").bind fun name _ => ?_
  refine (harmless_entry value "qualified_name").bind fun qualified _ => ?_
  refine (harmless_optional hmap).bind fun parent _ => ?_
  exact (harmless_optional hmap).bind fun declared _ => harmless_pure _

theorem harmless_readBlock (hfinite : value.isFinite = true) : Harmless (readBlock value) := by
  refine (harmless_entry value "symbol").bind fun entry hentry => ?_
  refine (harmless_readSymbol entry).bind fun symbol _ => ?_
  refine (harmless_several (Datum.isMap_of_entry hentry)).bind fun nodes hnodes => ?_
  refine (harmless_mapM fun item hitem =>
    (harmless_readValue_readNode _).2 item (isFinite_several hfinite hnodes item hitem)).bind fun _ _ => ?_
  exact harmless_pure _

theorem harmless_readPlace? (value : Datum) : Harmless (readPlace? value) := by
  unfold readPlace?
  split
  · next hmap =>
      refine (harmless_entry?_of_isMap hmap).bind fun path _ => ?_
      refine (harmless_shown _).bind fun path _ => ?_
      refine (harmless_optional hmap).bind fun line _ => ?_
      exact (harmless_optional hmap).bind fun column _ => harmless_pure _
  · exact harmless_pure none

theorem harmless_readDiagnostic (hmap : value.isMap = true) : Harmless (readDiagnostic value) := by
  refine (harmless_optional hmap).bind fun location _ => ?_
  refine (harmless_entry value "phase").bind fun entry _ => ?_
  refine (harmless_readNamed _ entry).bind fun phase _ => ?_
  refine (harmless_entry value "severity").bind fun entry _ => ?_
  refine (harmless_readNamed _ entry).bind fun severity _ => ?_
  refine (harmless_entry value "message").bind fun entry _ => ?_
  refine (harmless_shown entry).bind fun message _ => ?_
  refine (harmless_readPlace? location).bind fun place _ => ?_
  refine (harmless_optional hmap).bind fun rule _ => ?_
  refine (harmless_optional hmap).bind fun entity _ => ?_
  exact (harmless_optional hmap).bind fun target _ => harmless_pure _

/-- A record that does no harm whatever is wrong with it: it holds no infinite number, and mappings where
diagnostics belong. -/
structure Bearable (record : Datum) : Prop where
  finite : record.isFinite = true
  told : ∀ items, several record "diagnostics" = .ok items → ∀ item ∈ items, item.isMap = true

theorem Bearable.harmless {record : Datum} (h : Bearable record) (identity : String) :
    Harmless (AnnotatedUnit.ofRecord identity record) := by
  refine (harmless_entry record "fingerprint").bind fun entry hentry => ?_
  -- What has an entry is a mapping, so no later member is looked up in anything else.
  have hmap := Datum.isMap_of_entry hentry
  refine (harmless_shown entry).bind fun fingerprint _ => ?_
  refine (harmless_several hmap).bind fun blocks hblocks => ?_
  refine (harmless_mapM fun item hitem =>
    harmless_readBlock (isFinite_several h.finite hblocks item hitem)).bind fun _ _ => ?_
  refine (harmless_several hmap).bind fun diagnostics hdiagnostics => ?_
  refine (harmless_mapM fun item hitem =>
    harmless_readDiagnostic (h.told diagnostics hdiagnostics item hitem)).bind fun _ _ => ?_
  exact harmless_pure _

/-- A content that a cache is made of, if only an empty one: a text without whole numbers that are too
long and without values that are nested too deep. -/
def IsLoadable (content : List UInt8) : Prop :=
  ∃ chars, Text.decode content = .ok chars ∧
    Json.read chars ≠ .error .tooLong ∧ Json.read chars ≠ .error .tooDeep

theorem ofContent_eq_ok_iff {path : Path} {signature : String} {content : List UInt8} :
    (∃ cache, ofContent path signature content = .ok cache) ↔ IsLoadable content := by
  unfold ofContent IsLoadable
  cases hdecode : Text.decode content with
  | error error => simp [throw, throwThe, MonadExceptOf.throw, bind, Except.bind]
  | ok chars =>
      simp only [Except.ok.injEq, exists_eq_left', pure_bind]
      split
      · next hread => simp [hread, throw, throwThe, MonadExceptOf.throw]
      · next hread => simp [hread, throw, throwThe, MonadExceptOf.throw]
      · next hread => simp [hread, pure, Except.pure]
      · next value hread =>
          rw [hread]
          split <;> simp [pure, Except.pure]

theorem load_eq_ok_iff {path : Path} {signature : String} {tree : FileTree} :
    (∃ cache, load (some path) signature tree = .ok cache) ↔
      ∀ content, tree.read path = .ok content → IsLoadable content := by
  unfold load
  simp only
  split
  · next content hread =>
      rw [ofContent_eq_ok_iff, hread]
      simp
  · next hread => simp [hread]
  · next hread => simp [hread]

/-- A cache that no longer has the entry of a unit. It has all other entries that there were, and these are
what is in its file once it is written. -/
structure Drops (identity : String) (before after : Cache) : Prop where
  gone : ∀ entry ∈ after.entries, entry.1 ≠ .text identity
  others : ∀ entry, entry.1 ≠ .text identity → (entry ∈ after.entries ↔ entry ∈ before.entries)
  dirty : after.dirty = true
  path_eq : after.path = before.path
  written : ∀ path tree made kept, after.path = some path → tree.isDirectory = true →
    after.persist tree = (made, .ok kept) →
      ∃ text, after.text = .ok text ∧
        made.find? (FileTree.locate path) = some (.file (Text.encode text) 0)

theorem find?_persist {cache kept : Cache} {path : Path} {tree made : FileTree} (hdirty : cache.dirty = true)
    (hpath : cache.path = some path) (hroot : tree.isDirectory = true)
    (h : cache.persist tree = (made, .ok kept)) :
    ∃ text, cache.text = .ok text ∧ made.find? (FileTree.locate path) = some (.file (Text.encode text) 0) := by
  rw [persist, hdirty, hpath] at h
  simp only at h
  split at h
  · cases h
  · next text htext =>
      split at h
      · next written hwrite =>
          obtain ⟨rfl, -⟩ := Prod.mk.inj h
          exact ⟨text, htext, FileTree.find?_write hroot hwrite⟩
      · cases h

theorem drops_without (cache : Cache) (identity : String) : cache.Drops identity (cache.missed.without identity) where
  gone entry hentry := by
    have hkept := (List.mem_filter.mp hentry).2
    rwa [Bool.not_eq_true', Datum.isText_eq_false_iff] at hkept
  others entry hentry := by
    rw [without, List.mem_filter, Bool.not_eq_true', Datum.isText_eq_false_iff]
    exact and_iff_left hentry
  dirty := rfl
  path_eq := rfl
  written _ _ _ _ hpath hroot h := find?_persist rfl hpath hroot h

/-- What a look for a unit comes to: the unit of its record, or a miss. A record that no unit can be made of
is dropped. -/
inductive Looks (cache : Cache) (identity fingerprint : String) : Option AnnotatedUnit → Cache → Prop
  | hit (record : Datum) (unit : AnnotatedUnit) (hrecord : cache.record? identity fingerprint = some record)
      (hunit : AnnotatedUnit.ofRecord identity record = .ok unit) :
      Looks cache identity fingerprint (some unit) { cache with hits := cache.hits + 1 }
  | absent (hrecord : cache.record? identity fingerprint = none) :
      Looks cache identity fingerprint none cache.missed
  | damaged (record : Datum) (error : ShapeError) (after : Cache)
      (hrecord : cache.record? identity fingerprint = some record)
      (hunit : AnnotatedUnit.ofRecord identity record = .error error)
      (hmisses : after.misses = cache.misses + 1) (hdrops : cache.Drops identity after) :
      Looks cache identity fingerprint none after

/-- Damage is a miss. A cache is loaded from its file if and only if that is loadable; every look for a unit
comes to the unit or a miss, so long as its record is bearable; and after a miss the unit is read afresh. -/
theorem damage_is_miss (path : Path) (signature : String) (tree : FileTree) (cache : Cache)
    (identity digest : String) :
    ((∃ cache, load (some path) signature tree = .ok cache) ↔
      ∀ content, tree.read path = .ok content → IsLoadable content) ∧
    ((∀ record, cache.record? identity digest = some record → Bearable record) →
      ∃ found after, cache.get identity digest = .ok (found, after) ∧
        cache.Looks identity digest found after) ∧
    ∀ (reader : Compile.Reader) (after : Cache) (content : List UInt8),
      cache.get identity (fingerprint content) = .ok (none, after) →
        Compile.readThrough reader cache identity content =
          (Compile.readContent reader identity (fingerprint content) content, after) := by
  refine ⟨load_eq_ok_iff, fun h => ?_, fun reader after content h => ?_⟩
  · unfold get
    cases hrecord : cache.record? identity digest with
    | none => exact ⟨_, _, rfl, .absent hrecord⟩
    | some record =>
        simp only
        cases hunit : AnnotatedUnit.ofRecord identity record with
        | ok unit => exact ⟨_, _, rfl, .hit record unit hrecord hunit⟩
        | error error =>
            have hdamage : isDamage error = true := (h record hrecord).harmless identity error hunit
            simp only [hdamage, if_true]
            exact ⟨_, _, rfl, .damaged record error _ hrecord hunit rfl (cache.drops_without identity)⟩
  · rw [Compile.readThrough, h]

/-- A cache in memory with the record of one unit. -/
def single (record : Datum) : Cache :=
  { entries := [(.text "a.php", .record [("fingerprint", .text "fp"), ("unit", record)])] }

/-- An opening brace is loadable, and a record without a fingerprint is a miss. -/
theorem damage_is_miss_single :
    let path : Path := ⟨"/", ["cache.json"]⟩
    let tree : FileTree := .directory [("cache.json", .file [123] 0)]
    let cache := single (.record [])
    (∀ content, tree.read path = .ok content → IsLoadable content) ∧
      (∃ loaded, load (some path) "" tree = .ok loaded) ∧
      (∀ record, cache.record? "a.php" "fp" = some record → Bearable record) ∧
      ∃ after, cache.get "a.php" "fp" = .ok (none, after) ∧ cache.Looks "a.php" "fp" none after := by
  intro path tree cache
  have hloadable : ∀ content, tree.read path = .ok content → IsLoadable content := by
    rintro _ ⟨⟩
    exact ⟨['{'], rfl, nofun, nofun⟩
  have hbearable : ∀ record, cache.record? "a.php" "fp" = some record → Bearable record := by
    rintro _ ⟨⟩
    exact ⟨rfl, by rintro _ ⟨⟩; simp⟩
  obtain ⟨hload, hget, -⟩ := damage_is_miss path "" tree cache "a.php" "fp"
  refine ⟨hloadable, hload.mpr hloadable, hbearable, ?_⟩
  obtain ⟨found, after, hfound, hlooks⟩ := hget hbearable
  cases found with
  | some unit => cases hfound
  | none => exact ⟨after, hfound, hlooks⟩

/-- A file that is no text stops whoever loads it, and a number that stands for a diagnostic stops whoever
looks for its unit. -/
theorem damage_is_not_miss :
    (¬ ∀ path signature tree, ∃ cache, load (some path) signature tree = .ok cache) ∧
      ¬ ∀ (cache : Cache) (identity digest : String), ∃ found, cache.get identity digest = .ok found := by
  refine ⟨fun hload => ?_, fun hget => ?_⟩
  · obtain ⟨cache, hcache⟩ := hload ⟨"/", ["cache.json"]⟩ "" (.directory [("cache.json", .file [255] 0)])
    cases hcache
  · obtain ⟨found, hfound⟩ :=
      hget (single (.record [("fingerprint", .text "fp"), ("diagnostics", .list [.int 1])])) "a.php" "fp"
    cases hfound

end Cache

end DocCompiler
