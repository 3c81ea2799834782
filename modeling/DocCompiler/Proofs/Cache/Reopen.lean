import DocCompiler.Proofs.Annotation.Record
import DocCompiler.Proofs.Cache.Damage
import DocCompiler.Proofs.File.Written
import DocCompiler.Proofs.Json.Legible
import DocCompiler.Proofs.Text.Utf8

/-!
A cache that is opened from the file that it was written to has the entries that were written, with the entries of
mappings in the order of their keys. What is found in it for a unit is made of the record that was kept for it, in
that order.
-/

namespace DocCompiler

open Annotation

namespace Datum

variable {value item : Datum} {name : String} {style : Json.Style}

/-- The fields of a value with its entries in the order of a style. -/
theorem field?_ordered (h : value.Legible) (style : Json.Style) (name : String) :
    (style.ordered value).field? name = (value.field? name).map style.ordered := by
  cases value with
  | map entries =>
      rw [Json.ordered_map]
      change lookup _ ((style.arranged entries).map _) = (lookup _ entries).map _
      rw [lookup_map, lookup_text_perm h.1 (Json.perm_arranged style entries)]
  | list items =>
      rw [Json.ordered_list]
      rfl
  | _ => rw [Json.ordered_of_sorted rfl]; rfl

theorem isMap_ordered (value : Datum) (style : Json.Style) : (style.ordered value).isMap = value.isMap := by
  cases value with
  | map entries =>
      rw [Json.ordered_map]
      rfl
  | list items =>
      rw [Json.ordered_list]
      rfl
  | _ => rw [Json.ordered_of_sorted rfl]

theorem isText_ordered (value : Datum) (style : Json.Style) (name : String) :
    (style.ordered value).isText name = value.isText name := by
  cases value with
  | map entries =>
      rw [Json.ordered_map]
      rfl
  | list items =>
      rw [Json.ordered_list]
      rfl
  | _ => rw [Json.ordered_of_sorted rfl]

theorem legible_of_field? (h : value.Legible) (hitem : value.field? name = some item) : item.Legible := by
  cases value with
  | map entries =>
      obtain ⟨key, -, hmem⟩ := mem_of_lookup_eq_some hitem
      exact (entriesLegible_iff.mp h.2 _ hmem).2
  | _ => cases hitem

end Datum

namespace Cache

section Entries

/-- So many lists and mappings are read in an entry of a file: two mappings are around it. -/
def entryLevels : Nat :=
  Json.maxLevels - 2

/-- Entries as a file can hold them: under distinct texts, with what an entry must have, and nested no deeper than
they are read. -/
structure Tidy (entries : List (Datum × Datum)) : Prop where
  nodup : (entries.map (·.1)).Nodup
  each : ∀ entry ∈ entries,
    entry.1.LegibleText ∧ entry.2.LegibleWithin entryLevels ∧ isEntry entry.2 = true

variable {entries : List (Datum × Datum)}

theorem Tidy.legible (h : Tidy entries) : (Datum.map entries).LegibleWithin (entryLevels + 1) :=
  Datum.legibleWithin_map_iff.mpr
    ⟨h.nodup, fun entry hentry => ⟨(h.each entry hentry).1, (h.each entry hentry).2.1⟩⟩

theorem Tidy.filter (h : Tidy entries) (keep : Datum × Datum → Bool) : Tidy (entries.filter keep) where
  nodup := h.nodup.sublist (List.filter_sublist.map _)
  each entry hentry := h.each entry (List.mem_filter.mp hentry).1

theorem Tidy.insert (h : Tidy entries) {name : String} {value : Datum} (hvalue : value.LegibleWithin entryLevels)
    (hentry : isEntry value = true) : Tidy (Datum.insertEntry (.text name) value entries) := by
  have hkeys : ∀ key ∈ entries.map (·.1), key.LegibleText :=
    List.forall_mem_map.mpr fun entry hmem => (h.each entry hmem).1
  have heach : ∀ entry ∈ Datum.insertEntry (.text name) value entries,
      entry.1.LegibleText ∧ entry.2.LegibleWithin entryLevels ∧ isEntry entry.2 = true := by
    intro entry hmem
    obtain hold | ⟨rfl, hkey | ⟨old, hold, heq, -⟩⟩ := Datum.mem_insertEntry hmem
    · exact h.each entry hold
    · exact ⟨hkey ▸ trivial, hvalue, hentry⟩
    · exact ⟨heq ▸ (h.each old hold).1, hvalue, hentry⟩
  refine ⟨Datum.nodup_of_distinct ?_ (Datum.distinct_of_nodup hkeys h.nodup).insertEntry, heach⟩
  exact List.forall_mem_map.mpr fun entry hmem => (heach entry hmem).1

/-- A unit whose record is a text that is read back in a file of entries. -/
structure Fits (unit : AnnotatedUnit) : Prop where
  storable : unit.Storable
  nested : unit.record.nesting < entryLevels

theorem Fits.entry {unit : AnnotatedUnit} (h : Fits unit) (time : String) :
    (entryOf unit time).LegibleWithin entryLevels := by
  have hlevels : entryLevels = (entryLevels - 1) + 1 := rfl
  rw [hlevels]
  have hrecord : unit.record.LegibleWithin (entryLevels - 1) :=
    ⟨AnnotatedUnit.legible_record h.storable, Nat.le_sub_one_of_lt h.nested⟩
  refine Datum.legibleWithin_map_iff.mpr ⟨Datum.nodup_record (by simp), ?_⟩
  simp only [List.map_cons, List.map_nil, List.forall_mem_cons]
  have htext (text : String) : (Datum.text text).LegibleWithin (entryLevels - 1) :=
    Datum.legibleWithin_of_nesting_eq_zero trivial rfl
  exact ⟨⟨trivial, htext _⟩, ⟨trivial, hrecord⟩, ⟨trivial, htext _⟩, by simp⟩

theorem isEntry_ordered {value : Datum} (h : value.Legible) (style : Json.Style) :
    isEntry (style.ordered value) = isEntry value := by
  rw [isEntry, isEntry, Datum.field?_ordered h, Datum.field?_ordered h, Option.isSome_map, Option.isSome_map]

end Entries

section File

/-- The style that caches are written in. -/
def fileStyle : Json.Style :=
  { indent := some 2, ascii := true, sorted := true }

theorem ordered_fileStyle (value : Datum) : fileStyle.ordered value = value.sorted :=
  rfl

variable {path : Path} {signature : String}

/-- The cache of a file that holds tidy entries under the signature. -/
theorem ofContent_eq_ok {content : List UInt8} {chars : List Char} {value : Datum} {raw : List (Datum × Datum)}
    (hdecode : Text.decode content = .ok chars) (hread : Json.read chars = .ok value)
    (hversion : isForm (value.field? "version") = true)
    (hsignature : (value.field? "signature").any (·.isText signature) = true)
    (hentries : value.field? "entries" = some (.map raw)) :
    ofContent path signature content = .ok
      { path := some path, signature, entries := raw.filter fun entry => isEntry entry.2
        dirty := (raw.filter fun entry => isEntry entry.2).length != raw.length } := by
  have hfound : entriesOf? signature value =
      some (raw.filter fun entry => isEntry entry.2,
        (raw.filter fun entry => isEntry entry.2).length != raw.length) := by
    rw [entriesOf?, hversion, hsignature, hentries]
    rfl
  rw [ofContent, hdecode]
  simp only [pure_bind]
  rw [hread]
  simp only [hfound]
  rfl

theorem legible_content {cache : Cache} (h : Tidy cache.entries) : cache.content.LegibleWithin Json.maxLevels := by
  refine Datum.legibleWithin_map_iff.mpr ⟨Datum.nodup_record (by simp), ?_⟩
  simp only [List.map_cons, List.map_nil, List.forall_mem_cons]
  exact ⟨⟨trivial, ⟨rfl, trivial⟩, Nat.zero_le _⟩, ⟨trivial, trivial, Nat.zero_le _⟩, ⟨trivial, h.legible⟩, by simp⟩

/-- The content of a file that a cache was written to, read again. -/
theorem ofContent_text {cache : Cache} {text : String} (h : Tidy cache.entries) (htext : cache.text = .ok text)
    (path : Path) : ∃ again, ofContent path cache.signature (Text.encode text) = .ok again ∧
      again.dirty = false ∧ .map again.entries = (Datum.map cache.entries).sorted := by
  have hlegible := legible_content h
  obtain ⟨written, hwritten, hread⟩ := Json.readWithin_write_nested hlegible.legible fileStyle
  obtain rfl : written = text := Except.ok.inj (hwritten.symm.trans htext)
  have hread := hread Json.maxLevels hlegible.nested [] (by simp)
  rw [List.append_nil] at hread
  have hfield (name : String) := Datum.field?_ordered hlegible.legible fileStyle name
  obtain ⟨raw, hraw⟩ : ∃ raw, (Datum.map cache.entries).sorted = .map raw := ⟨_, rfl⟩
  have hkept : (raw.filter fun entry => isEntry entry.2) = raw := by
    have hmap := Json.ordered_map fileStyle cache.entries
    rw [ordered_fileStyle, hraw] at hmap
    obtain rfl := Datum.map.inj hmap
    refine List.filter_eq_self.mpr (List.forall_mem_map.mpr fun entry hentry => ?_)
    obtain ⟨-, hvalue, hhas⟩ := h.each entry ((Json.perm_arranged fileStyle cache.entries).mem_iff.mp hentry)
    rw [isEntry_ordered hvalue.legible, hhas]
  have hversion : isForm ((fileStyle.ordered cache.content).field? "version") = true := by
    rw [hfield]
    rfl
  have hsignature : ((fileStyle.ordered cache.content).field? "signature").any (·.isText cache.signature) = true := by
    rw [hfield]
    exact Datum.isText_iff.mpr rfl
  have hentries : (fileStyle.ordered cache.content).field? "entries" = some (.map raw) := by
    rw [hfield, ← hraw]
    rfl
  have hload := @ofContent_eq_ok path _ _ _ _ _ (Text.decode_encode written) hread hversion hsignature hentries
  rw [hkept] at hload
  exact ⟨_, hload, by simp, hraw.symm⟩

variable {cache kept : Cache} {tree made : FileTree}

theorem tidy_entriesOf? {value : Datum} {entries : List (Datum × Datum)} {dirty : Bool}
    (hvalue : value.LegibleWithin Json.maxLevels) (h : entriesOf? signature value = some (entries, dirty)) :
    Tidy entries := by
  rw [entriesOf?] at h
  split_ifs at h
  split at h
  · next raw hraw =>
      obtain ⟨rfl, -⟩ := Prod.mk.inj (Option.some.inj h)
      have hmap : (Datum.map raw).LegibleWithin (entryLevels + 1) := hvalue.field? hraw
      obtain ⟨hnodup, heach⟩ := Datum.legibleWithin_map_iff.mp hmap
      refine ⟨hnodup.sublist (List.filter_sublist.map _), fun entry hentry => ?_⟩
      obtain ⟨hmem, hhas⟩ := List.mem_filter.mp hentry
      exact ⟨(heach entry hmem).1, (heach entry hmem).2, hhas⟩
  · cases h

theorem tidy_nil : Tidy [] :=
  ⟨List.nodup_nil, by simp⟩

theorem tidy_ofContent {content : List UInt8} (h : ofContent path signature content = .ok cache) :
    cache.path = some path ∧ cache.signature = signature ∧ Tidy cache.entries := by
  rw [ofContent] at h
  cases hdecode : Text.decode content with
  | error error =>
      rw [hdecode] at h
      cases h
  | ok chars =>
  rw [hdecode] at h
  simp only [pure_bind] at h
  split at h
  · cases h
  · cases h
  · obtain rfl := Result.pure_eq_ok_iff.mp h
    exact ⟨rfl, rfl, tidy_nil⟩
  · next value hread =>
      split at h
      · next entries dirty hentries =>
          obtain rfl := Result.pure_eq_ok_iff.mp h
          exact ⟨rfl, rfl, tidy_entriesOf? (Json.legible_readWithin hread) hentries⟩
      · obtain rfl := Result.pure_eq_ok_iff.mp h
        exact ⟨rfl, rfl, tidy_nil⟩

/-- A cache that is opened from a file has some entries, in their order or sorted, and is not dirty. -/
def Holds (path : Path) (signature : String) (tree : FileTree) (entries : List (Datum × Datum)) : Prop :=
  ∃ again, load (some path) signature tree = .ok again ∧ again.dirty = false ∧
    (again.entries = entries ∨ .map again.entries = (Datum.map entries).sorted)

theorem persist_cases (hpath : cache.path = some path) (h : cache.persist tree = (made, .ok kept)) :
    cache.dirty = false ∧ kept = cache ∧ made = tree ∨
      ∃ text, cache.text = .ok text ∧ tree.write path text = (made, .ok ()) ∧ kept = { cache with dirty := false } := by
  rw [persist, hpath] at h
  split at h
  · next written _ hwritten =>
      obtain rfl := Option.some.inj hwritten
      split at h
      · cases h
      · next text htext =>
          split at h
          · next hwrite =>
              obtain ⟨rfl, hkept⟩ := Prod.mk.inj h
              rw [hpath]
              exact .inr ⟨text, htext, hwrite, (Except.ok.inj hkept).symm⟩
          · cases h
  · next hclean =>
      obtain ⟨rfl, hkept⟩ := Prod.mk.inj h
      have hdirty : cache.dirty = false := by
        rw [← Bool.not_eq_true]
        exact fun hdirty => hclean path hdirty rfl
      exact .inl ⟨hdirty, (Except.ok.inj hkept).symm, rfl⟩

/-- What is written to a file is in the file. -/
theorem holds_write {text : String} (htidy : Tidy cache.entries) (hroot : tree.isDirectory = true)
    (htext : cache.text = .ok text) (hwrite : tree.write path text = (made, .ok ())) :
    Holds path cache.signature made cache.entries := by
  obtain ⟨again, hagain, hdirty, hentries⟩ := ofContent_text htidy htext path
  refine ⟨again, ?_, hdirty, .inr hentries⟩
  rw [load]
  simp only [FileTree.read_write hroot hwrite]
  exact hagain

end File

section Opened

/-- What is made of the record of a unit, or of none. -/
def decoded (identity : String) : Option Datum → Except ShapeError (Option AnnotatedUnit)
  | none => .ok none
  | some record =>
      match AnnotatedUnit.ofRecord identity record with
      | .ok unit => .ok (some unit)
      | .error error => if isDamage error then .ok none else .error error

theorem map_fst_get (cache : Cache) (identity digest : String) :
    (cache.get identity digest).map (·.1) = decoded identity (cache.record? identity digest) := by
  rw [get]
  cases cache.record? identity digest with
  | none => rfl
  | some record =>
      simp only [decoded]
      cases AnnotatedUnit.ofRecord identity record with
      | ok unit => rfl
      | error error =>
          simp only
          cases isDamage error <;> rfl

variable {cache again : Cache} {identity digest : String}

/-- A cache with entries in order finds the records of its units in order. -/
theorem record?_of_sorted (h : Tidy cache.entries) (hagain : .map again.entries = (Datum.map cache.entries).sorted) :
    again.record? identity digest = (cache.record? identity digest).map Datum.sorted := by
  have hlegible := h.legible.legible
  have hlookup : Datum.lookup (.text identity) again.entries =
      (Datum.lookup (.text identity) cache.entries).map Datum.sorted := by
    have hfield := Datum.field?_ordered hlegible fileStyle identity
    rw [ordered_fileStyle, ← hagain] at hfield
    exact hfield
  rw [record?, record?, hlookup]
  cases hfound : Datum.lookup (.text identity) cache.entries with
  | none => rfl
  | some entry =>
      have hentry : entry.Legible := Datum.legible_of_field? (hlegible : (Datum.map cache.entries).Legible) hfound
      have hfield (name : String) : entry.sorted.field? name = (entry.field? name).map Datum.sorted :=
        Datum.field?_ordered hentry fileStyle name
      have hmatch : ((entry.field? "fingerprint").map Datum.sorted).any (·.isText digest) =
          (entry.field? "fingerprint").any (·.isText digest) := by
        cases entry.field? "fingerprint" with
        | none => rfl
        | some found => exact Datum.isText_ordered found fileStyle digest
      have hunit : ((entry.field? "unit").map Datum.sorted).filter Datum.isMap =
          ((entry.field? "unit").filter Datum.isMap).map Datum.sorted := by
        cases entry.field? "unit" with
        | none => rfl
        | some record =>
            rw [Option.map_some, Option.filter_some, Option.filter_some]
            have hmap : record.sorted.isMap = record.isMap := Datum.isMap_ordered record fileStyle
            rw [hmap]
            cases record.isMap <;> rfl
      simp only [Option.map_some, hfield, hmatch, hunit]
      split <;> rfl

end Opened

end Cache

end DocCompiler
