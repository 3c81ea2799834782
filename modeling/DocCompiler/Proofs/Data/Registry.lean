import DocCompiler.Data.OrderedMap
import DocCompiler.Data.Datum
import Mathlib.Data.List.Basic

/-!
Entries looked up and put under keys.
-/

namespace DocCompiler

namespace Datum

variable {α : Type} {key : Datum} {value : α} {entries : List (Datum × α)}

theorem sameKey_text {a : Datum} {text : String} : a.sameKey (.text text) = true ↔ a = .text text := by
  cases a with
  | text other =>
      change (other == text) = true ↔ _
      rw [beq_iff_eq, Datum.text.injEq]
  | _ => exact ⟨nofun, nofun⟩

theorem text_sameKey {b : Datum} {text : String} :
    (Datum.text text).sameKey b = true ↔ b = .text text := by
  cases b with
  | text other =>
      change (text == other) = true ↔ _
      rw [beq_iff_eq, Datum.text.injEq, eq_comm]
  | _ => exact ⟨nofun, nofun⟩

/-- Characters make up the text that they are taken from. -/
theorem ofCodes_toList (text : String) : ofCodes (text.toList.map Char.toNat) = .text text := by
  have hvalid : (text.toList.map Char.toNat).all fun code => decide code.isValidChar := by
    rw [List.all_map, List.all_eq_true]
    intro c _
    exact decide_eq_true c.valid
  have hid : Char.ofNat ∘ Char.toNat = id := funext Char.ofNat_toNat
  rw [ofCodes, if_pos hvalid, List.map_map, hid, List.map_id, String.ofList_toList]

theorem asText_text (name : String) : (text name).asText = text name :=
  rfl

theorem asText_asText (value : Datum) : value.asText.asText = value.asText := by
  cases value <;> rfl

theorem ofCodes_cases (points : List Nat) :
    (∃ text, ofCodes points = .text text) ∨ ofCodes points = .codes points := by
  rw [ofCodes]
  split
  · exact .inl ⟨_, rfl⟩
  · exact .inr rfl

theorem sameKey_ofCodes {a : Datum} {points : List Nat} :
    a.sameKey (ofCodes points) = true ↔ a = ofCodes points := by
  rcases ofCodes_cases points with ⟨text, htext⟩ | hcodes
  · rw [htext, sameKey_text]
  · rw [hcodes]
    cases a with
    | codes others =>
        change (others == points) = true ↔ _
        rw [beq_iff_eq, Datum.codes.injEq]
    | _ => exact ⟨nofun, nofun⟩

/-- A text is the same key as itself alone. -/
theorem ofCodes_sameKey {a : Datum} (ha : ∃ points, a = ofCodes points) {b : Datum} :
    a.sameKey b = true ↔ a = b := by
  obtain ⟨points, rfl⟩ := ha
  rcases ofCodes_cases points with ⟨text, htext⟩ | hcodes
  · rw [htext, text_sameKey, eq_comm]
  · rw [hcodes]
    cases b with
    | codes others =>
        change (points == others) = true ↔ _
        rw [beq_iff_eq, Datum.codes.injEq]
    | _ => exact ⟨nofun, nofun⟩

/-- A key that is a text, be it one of code points, is the same as no other one. -/
theorem sameKey_iff_eq {a b : Datum} (h : a.asText = a ∨ b.asText = b) : a.sameKey b = true ↔ a = b := by
  have hcodes (first second : List Nat) : (codes first).sameKey (codes second) = true ↔ codes first = codes second := by
    change (first == second) = true ↔ _
    rw [beq_iff_eq, Datum.codes.injEq]
  rcases h with h | h
  · cases a with
    | text name => rw [text_sameKey, eq_comm]
    | codes points =>
        cases b with
        | codes others => exact hcodes points others
        | _ => exact ⟨nofun, nofun⟩
    | _ => cases h
  · cases b with
    | text name => exact sameKey_text
    | codes points =>
        cases a with
        | codes others => exact hcodes others points
        | _ => exact ⟨nofun, nofun⟩
    | _ => cases h

theorem isText_iff {a : Datum} {text : String} : a.isText text = true ↔ a = .text text := by
  cases a <;> simp [isText, text?]

theorem isText_eq_false_iff {a : Datum} {name : String} : a.isText name = false ↔ a ≠ .text name := by
  rw [← Bool.not_eq_true, isText_iff]

theorem isAmong_iff {a : Datum} {names : List String} :
    a.isAmong names = true ↔ ∃ name ∈ names, a = .text name := by
  cases a <;> simp [isAmong, text?]

theorem isAmong_of_subset {a : Datum} {names more : List String} (h : a.isAmong names = true)
    (hmore : names ⊆ more) : a.isAmong more = true := by
  obtain ⟨name, hname, ha⟩ := isAmong_iff.mp h
  exact isAmong_iff.mpr ⟨name, hmore hname, ha⟩

theorem isHashable_of_isAmong {a : Datum} {names : List String} (h : a.isAmong names = true) :
    a.isHashable = true := by
  obtain ⟨name, -, rfl⟩ := isAmong_iff.mp h
  rfl

theorem isHashable_of_sameKey {a b : Datum} (h : a.sameKey b = true) : b.isHashable = true := by
  cases b with
  | list | map | set | again | pair => cases a <;> simp [sameKey, keyNumber?] at h
  | _ => rfl

/-- Entries under distinct keys. -/
def Distinct (entries : List (Datum × α)) : Prop :=
  entries.Pairwise fun first second => first.1.sameKey second.1 = false

theorem distinct_iff_keys :
    Distinct entries ↔
      (entries.map (·.1)).Pairwise fun first second => first.sameKey second = false := by
  rw [List.pairwise_map, Distinct]

theorem lookup_cons_of_same {name : Datum} (h : name.sameKey key = true) :
    lookup key ((name, value) :: entries) = some value :=
  if_pos h

theorem lookup_cons_of_ne {name : Datum} (h : ¬ name.sameKey key = true) :
    lookup key ((name, value) :: entries) = lookup key entries :=
  if_neg h

theorem insertEntry_cons_of_same {name : Datum} {found : α} (h : name.sameKey key = true) :
    insertEntry key value ((name, found) :: entries) = (name, value) :: entries :=
  if_pos h

theorem insertEntry_cons_of_ne {name : Datum} {found : α} (h : ¬ name.sameKey key = true) :
    insertEntry key value ((name, found) :: entries) = (name, found) :: insertEntry key value entries :=
  if_neg h

theorem lookup_eq_none_iff :
    lookup key entries = none ↔ ∀ entry ∈ entries, entry.1.sameKey key = false := by
  induction entries with
  | nil => exact ⟨fun _ => nofun, fun _ => rfl⟩
  | cons entry rest ih =>
      rcases entry with ⟨name, found⟩
      rw [List.forall_mem_cons]
      by_cases h : name.sameKey key = true
      · rw [lookup_cons_of_same h, h]
        exact ⟨nofun, fun hall => nomatch hall.1⟩
      · rw [lookup_cons_of_ne h, ih]
        exact (and_iff_right (Bool.eq_false_iff.mpr h)).symm

theorem mem_of_lookup_eq_some (h : lookup key entries = some value) :
    ∃ name, name.sameKey key = true ∧ (name, value) ∈ entries := by
  induction entries with
  | nil => cases h
  | cons entry rest ih =>
      rcases entry with ⟨name, found⟩
      by_cases hname : name.sameKey key = true
      · rw [lookup_cons_of_same hname] at h
        obtain rfl := Option.some.inj h
        exact ⟨name, hname, List.mem_cons_self⟩
      · rw [lookup_cons_of_ne hname] at h
        obtain ⟨other, hother, hmem⟩ := ih h
        exact ⟨other, hother, List.mem_cons_of_mem _ hmem⟩

theorem insertEntry_of_lookup_eq_none (h : lookup key entries = none) :
    insertEntry key value entries = entries ++ [(key, value)] := by
  induction entries with
  | nil => rfl
  | cons entry rest ih =>
      rcases entry with ⟨name, found⟩
      by_cases hname : name.sameKey key = true
      · rw [lookup_cons_of_same hname] at h
        cases h
      · rw [lookup_cons_of_ne hname] at h
        rw [insertEntry_cons_of_ne hname, ih h, List.cons_append]

theorem keys_insertEntry_of_lookup {found : α} (h : lookup key entries = some found) :
    (insertEntry key value entries).map (·.1) = entries.map (·.1) := by
  induction entries with
  | nil => cases h
  | cons entry rest ih =>
      rcases entry with ⟨name, other⟩
      by_cases hname : name.sameKey key = true
      · rw [insertEntry_cons_of_same hname, List.map_cons, List.map_cons]
      · rw [lookup_cons_of_ne hname] at h
        rw [insertEntry_cons_of_ne hname, List.map_cons, List.map_cons, ih h]

theorem lookup_insertEntry_self (hkey : key.sameKey key = true) :
    lookup key (insertEntry key value entries) = some value := by
  induction entries with
  | nil => exact lookup_cons_of_same hkey
  | cons entry rest ih =>
      rcases entry with ⟨name, found⟩
      by_cases hname : name.sameKey key = true
      · rw [insertEntry_cons_of_same hname, lookup_cons_of_same hname]
      · rw [insertEntry_cons_of_ne hname, lookup_cons_of_ne hname, ih]

theorem lookup_insertEntry_of_ne {other : Datum} (hkey : key.sameKey other = false)
    (hentries : ∀ entry ∈ entries, entry.1.sameKey key = true → entry.1.sameKey other = false) :
    lookup other (insertEntry key value entries) = lookup other entries := by
  induction entries with
  | nil => exact lookup_cons_of_ne (Bool.eq_false_iff.mp hkey)
  | cons entry rest ih =>
      rcases entry with ⟨name, found⟩
      obtain ⟨hfirst, hrest⟩ := List.forall_mem_cons.mp hentries
      by_cases hname : name.sameKey key = true
      · have hne := Bool.eq_false_iff.mp (hfirst hname)
        rw [insertEntry_cons_of_same hname, lookup_cons_of_ne hne, lookup_cons_of_ne hne]
      · rw [insertEntry_cons_of_ne hname, lookup, lookup, ih hrest]

/-- What is put in the place of something alike leaves the entries alike. -/
theorem map_insertEntry_of_lookup {β : Type} {found : α} (h : lookup key entries = some found)
    {f : α → β} (hvalue : f value = f found) :
    (insertEntry key value entries).map (fun entry => (entry.1, f entry.2)) =
      entries.map fun entry => (entry.1, f entry.2) := by
  induction entries with
  | nil => cases h
  | cons entry rest ih =>
      rcases entry with ⟨name, first⟩
      by_cases hname : name.sameKey key = true
      · rw [lookup_cons_of_same hname] at h
        obtain rfl := Option.some.inj h
        rw [insertEntry_cons_of_same hname, List.map_cons, List.map_cons, hvalue]
      · rw [lookup_cons_of_ne hname] at h
        rw [insertEntry_cons_of_ne hname, List.map_cons, List.map_cons, ih h]

/-- What stands among entries after one was put under a key was there before, or was put there. -/
theorem mem_insertEntry {entry : Datum × α} (h : entry ∈ insertEntry key value entries) :
    entry ∈ entries ∨
      (entry.2 = value ∧
        (entry.1 = key ∨ ∃ old ∈ entries, old.1 = entry.1 ∧ entry.1.sameKey key = true)) := by
  induction entries with
  | nil =>
      obtain rfl : entry = (key, value) := List.mem_singleton.mp h
      exact .inr ⟨rfl, .inl rfl⟩
  | cons first rest ih =>
      rcases first with ⟨name, found⟩
      by_cases hname : name.sameKey key = true
      · rw [insertEntry_cons_of_same hname, List.mem_cons] at h
        rcases h with rfl | h
        · exact .inr ⟨rfl, .inr ⟨(name, found), List.mem_cons_self, rfl, hname⟩⟩
        · exact .inl (List.mem_cons_of_mem _ h)
      · rw [insertEntry_cons_of_ne hname, List.mem_cons] at h
        rcases h with rfl | h
        · exact .inl List.mem_cons_self
        · rcases ih h with h | ⟨hvalue, hkey | ⟨old, hold, heq, hsame⟩⟩
          · exact .inl (List.mem_cons_of_mem _ h)
          · exact .inr ⟨hvalue, .inl hkey⟩
          · exact .inr ⟨hvalue, .inr ⟨old, List.mem_cons_of_mem _ hold, heq, hsame⟩⟩

theorem exists_mem_insertEntry : ∃ name, (name, value) ∈ insertEntry key value entries := by
  induction entries with
  | nil => exact ⟨key, List.mem_cons_self⟩
  | cons first rest ih =>
      rcases first with ⟨name, found⟩
      by_cases hname : name.sameKey key = true
      · rw [insertEntry_cons_of_same hname]
        exact ⟨name, List.mem_cons_self⟩
      · obtain ⟨other, hother⟩ := ih
        rw [insertEntry_cons_of_ne hname]
        exact ⟨other, List.mem_cons_of_mem _ hother⟩

theorem Distinct.append_singleton (h : Distinct entries) (hkey : lookup key entries = none) :
    Distinct (entries ++ [(key, value)]) := by
  refine List.pairwise_append.mpr ⟨h, List.pairwise_singleton _ _, ?_⟩
  intro first hfirst second hsecond
  obtain rfl : second = (key, value) := by simpa using hsecond
  exact lookup_eq_none_iff.mp hkey first hfirst

theorem Distinct.insertEntry (h : Distinct entries) : Distinct (insertEntry key value entries) := by
  cases hfound : lookup key entries with
  | none =>
      rw [insertEntry_of_lookup_eq_none hfound]
      exact h.append_singleton hfound
  | some found =>
      rw [distinct_iff_keys, keys_insertEntry_of_lookup hfound]
      exact distinct_iff_keys.mp h

theorem insertEntry_map {β : Type} (f : α → β) (key : Datum) (value : α) (entries : List (Datum × α)) :
    (insertEntry key value entries).map (fun entry => (entry.1, f entry.2)) =
      insertEntry key (f value) (entries.map fun entry => (entry.1, f entry.2)) := by
  induction entries with
  | nil => rfl
  | cons entry rest ih =>
      rcases entry with ⟨name, found⟩
      rw [List.map_cons]
      by_cases h : name.sameKey key = true
      · rw [insertEntry_cons_of_same h, insertEntry_cons_of_same h, List.map_cons]
      · rw [insertEntry_cons_of_ne h, insertEntry_cons_of_ne h, List.map_cons, ih]

theorem lookup_map {β : Type} (f : α → β) :
    lookup key (entries.map fun entry => (entry.1, f entry.2)) = (lookup key entries).map f := by
  induction entries with
  | nil => rfl
  | cons entry rest ih =>
      rw [List.map_cons]
      by_cases h : entry.1.sameKey key = true
      · rw [lookup_cons_of_same h, lookup_cons_of_same h, Option.map_some]
      · rw [lookup_cons_of_ne h, lookup_cons_of_ne h, ih]

/-- What stands under a text among entries with distinct keys. -/
theorem lookup_of_mem (hdistinct : Distinct entries) (hkey : key.asText = key) (h : (key, value) ∈ entries) :
    lookup key entries = some value := by
  induction entries with
  | nil => cases h
  | cons entry rest ih =>
      rcases entry with ⟨name, found⟩
      obtain ⟨hfirst, hrest⟩ := List.pairwise_cons.mp hdistinct
      rcases List.mem_cons.mp h with heq | hmem
      · obtain ⟨rfl, rfl⟩ := Prod.mk.inj heq
        exact lookup_cons_of_same ((sameKey_iff_eq (.inl hkey)).mpr rfl)
      · rw [lookup_cons_of_ne (Bool.eq_false_iff.mp (hfirst _ hmem))]
        exact ih hrest hmem

theorem lookup_eq_some_of_mem (hdistinct : Distinct entries) {text : String}
    (h : (.text text, value) ∈ entries) : lookup (.text text) entries = some value :=
  lookup_of_mem hdistinct rfl h

/-- What is found under a key stands under it when all keys are texts. -/
theorem mem_of_lookup (hkeys : ∀ entry ∈ entries, entry.1.asText = entry.1) (h : lookup key entries = some value) :
    (key, value) ∈ entries := by
  obtain ⟨name, hsame, hmem⟩ := mem_of_lookup_eq_some h
  rwa [← (sameKey_iff_eq (.inl (hkeys _ hmem))).mp hsame]

theorem distinctEntries_of_distinct (h : Distinct entries) : distinctEntries entries = entries := by
  have hfold : ∀ (rest done : List (Datum × α)), Distinct (done ++ rest) →
      rest.foldl (fun done entry => insertEntry entry.1 entry.2 done) done = done ++ rest := by
    intro rest
    induction rest with
    | nil => simp
    | cons entry rest ih =>
        intro done hdone
        have hkey : lookup entry.1 done = none := by
          rw [lookup_eq_none_iff]
          intro first hfirst
          exact (List.pairwise_append.mp hdone).2.2 first hfirst entry (by simp)
        rw [List.foldl_cons, insertEntry_of_lookup_eq_none hkey, ih]
        · simp
        · simpa using hdone
  simpa [distinctEntries] using hfold entries [] (by simpa using h)

theorem distinct_distinctEntries (entries : List (Datum × α)) : Distinct (distinctEntries entries) := by
  have hfold : ∀ (rest done : List (Datum × α)), Distinct done →
      Distinct (rest.foldl (fun done entry => insertEntry entry.1 entry.2 done) done) := by
    intro rest
    induction rest with
    | nil => exact fun _ h => h
    | cons entry rest ih => exact fun done h => ih _ h.insertEntry
  exact hfold entries [] List.Pairwise.nil

/-- Names and values among distinct entries are names and values of the entries that were given. -/
theorem mem_distinctEntries {entries : List (Datum × α)} {entry : Datum × α}
    (h : entry ∈ distinctEntries entries) :
    entry.1 ∈ entries.map (·.1) ∧ entry.2 ∈ entries.map (·.2) := by
  have hfold : ∀ (rest done : List (Datum × α)),
      (∀ found ∈ done, found.1 ∈ entries.map (·.1) ∧ found.2 ∈ entries.map (·.2)) →
      (∀ found ∈ rest, found ∈ entries) →
      ∀ found ∈ rest.foldl (fun done entry => insertEntry entry.1 entry.2 done) done,
        found.1 ∈ entries.map (·.1) ∧ found.2 ∈ entries.map (·.2) := by
    intro rest
    induction rest with
    | nil => exact fun done hdone _ => hdone
    | cons first rest ih =>
        intro done hdone hrest
        refine ih _ (fun found hfound => ?_) fun other hother => hrest other (by simp [hother])
        have hfirst := hrest first (by simp)
        rcases mem_insertEntry hfound with hold | ⟨hvalue, hkey | ⟨old, hold, heq, -⟩⟩
        · exact hdone found hold
        · exact ⟨hkey ▸ List.mem_map_of_mem hfirst, hvalue ▸ List.mem_map_of_mem hfirst⟩
        · exact ⟨heq ▸ (hdone old hold).1, hvalue ▸ List.mem_map_of_mem hfirst⟩
  exact hfold entries [] (by simp) (fun _ h => h) entry h

theorem lookup_text_eq_some_iff (hnodup : (entries.map (·.1)).Nodup) {text : String} :
    lookup (.text text) entries = some value ↔ (.text text, value) ∈ entries := by
  induction entries with
  | nil => simp [lookup]
  | cons entry rest ih =>
      obtain ⟨name, found⟩ := entry
      obtain ⟨hfirst, hrest⟩ := List.nodup_cons.mp hnodup
      by_cases hname : name.sameKey (.text text) = true
      · rw [lookup_cons_of_same hname, List.mem_cons]
        obtain rfl := sameKey_text.mp hname
        constructor
        · rintro ⟨⟩
          exact .inl rfl
        · rintro (heq | hmem)
          · rw [(Prod.mk.inj heq).2]
          · exact absurd (List.mem_map_of_mem hmem) hfirst
      · rw [lookup_cons_of_ne hname, ih hrest, List.mem_cons]
        refine ⟨.inr, fun hmem => hmem.resolve_left fun heq => ?_⟩
        obtain ⟨rfl, -⟩ := Prod.mk.inj heq
        exact hname (sameKey_text.mpr rfl)

/-- What stands under a text does not depend on the order of entries. -/
theorem lookup_text_perm {others : List (Datum × α)} (hnodup : (entries.map (·.1)).Nodup)
    (hperm : others.Perm entries) (text : String) :
    lookup (.text text) others = lookup (.text text) entries := by
  refine Option.ext fun value => ?_
  rw [lookup_text_eq_some_iff hnodup, lookup_text_eq_some_iff ((hperm.map _).nodup_iff.mpr hnodup),
    hperm.mem_iff]

theorem lookup_text_filter (keep : Datum → Bool) (text : String) (entries : List (Datum × α)) :
    lookup (.text text) (entries.filter fun entry => keep entry.1) =
      if keep (.text text) then lookup (.text text) entries else none := by
  induction entries with
  | nil => simp [lookup]
  | cons entry rest ih =>
      obtain ⟨name, found⟩ := entry
      by_cases hname : name.sameKey (.text text) = true
      · obtain rfl := sameKey_text.mp hname
        cases hkeep : keep (.text text) with
        | true =>
            rw [List.filter_cons_of_pos (by exact hkeep), lookup_cons_of_same hname, lookup_cons_of_same hname,
              if_pos rfl]
        | false => rw [List.filter_cons_of_neg (by simp [hkeep]), ih, hkeep, if_neg (by simp), if_neg (by simp)]
      · rw [lookup_cons_of_ne hname, ← ih]
        cases hkeep : keep name with
        | true => rw [List.filter_cons_of_pos (by exact hkeep), lookup_cons_of_ne hname]
        | false => rw [List.filter_cons_of_neg (by simp [hkeep])]

end Datum

namespace OrderedMap

variable {α : Type} {name : String} {value : α} {map : OrderedMap α}

theorem mem_of_get? (h : map.get? name = some value) : (name, value) ∈ map := by
  obtain ⟨before, after, hmap, -⟩ := List.lookup_eq_some_iff.mp h
  simp [hmap]

theorem get?_of_mem (hnodup : (map.map (·.1)).Nodup) (h : (name, value) ∈ map) :
    map.get? name = some value := by
  induction map with
  | nil => simp at h
  | cons entry rest ih =>
      rw [List.map_cons, List.nodup_cons] at hnodup
      obtain rfl | h := List.mem_cons.mp h
      · simp [get?]
      · have hne : name ≠ entry.1 := by
          rintro rfl
          exact hnodup.1 (List.mem_map_of_mem (f := (·.1)) h)
        rw [get?, List.lookup_cons, beq_false_of_ne hne]
        exact ih hnodup.2 h

theorem mem_put {entry : String × α} (h : entry ∈ map.put name value) :
    entry ∈ map ∨ entry = (name, value) := by
  induction map with
  | nil => exact .inr (by simpa [put] using h)
  | cons first rest ih =>
      rcases first with ⟨other, found⟩
      by_cases hname : other = name
      · subst hname
        have hentry : entry = (other, value) ∨ entry ∈ rest := by simpa [put] using h
        rcases hentry with rfl | hrest
        · exact .inr rfl
        · exact .inl (by simp [hrest])
      · have hentry : entry = (other, found) ∨ entry ∈ put name value rest := by
          simpa [put, hname] using h
        rcases hentry with rfl | hrest
        · exact .inl (by simp)
        · rcases ih hrest with hmem | rfl
          · exact .inl (by simp [hmem])
          · exact .inr rfl

theorem mem_names_put {other : String} (h : other ∈ (map.put name value).map (·.1)) :
    other ∈ map.map (·.1) ∨ other = name := by
  obtain ⟨entry, hentry, rfl⟩ := List.mem_map.mp h
  rcases mem_put hentry with hold | rfl
  · exact .inl (List.mem_map_of_mem hold)
  · exact .inr rfl

theorem nodup_names_put (h : (map.map (·.1)).Nodup) : ((map.put name value).map (·.1)).Nodup := by
  induction map with
  | nil => simp [put]
  | cons first rest ih =>
      rcases first with ⟨other, found⟩
      obtain ⟨hfirst, hrest⟩ := List.nodup_cons.mp h
      by_cases hname : other = name
      · subst hname
        simpa [put] using h
      · simp only [put, beq_iff_eq, hname, if_false, List.map_cons, List.nodup_cons]
        refine ⟨fun hmem => ?_, ih hrest⟩
        rcases mem_names_put hmem with hold | rfl
        · exact hfirst hold
        · exact hname rfl

end OrderedMap

end DocCompiler
