import DocCompiler.Data.Shape
import DocCompiler.Proofs.Data.Registry
import DocCompiler.Proofs.Json.Numeral

/-!
JSON texts read back. A value that JSON has a form for is read back from its text in every layout, with
the entries of mappings in the order in which they were written.
-/

namespace DocCompiler

namespace Datum

/-- The code points of a text. -/
def points (value : Datum) : List Nat :=
  value.codes?.getD []

/-- A text that can be read back: no two of its code points are the halves of a pair. -/
def LegibleText : Datum → Prop
  | .text _ => True
  | .codes points => ofCodes points = .codes points ∧ Json.Unpaired points
  | _ => False

mutual

/-- A value that can be read back from its text: texts, numbers that have a text, truth values, absent
values, and lists and mappings of such, where the keys of mappings are different texts. -/
def Legible : Datum → Prop
  | .null | .bool _ | .text _ => True
  | .codes points => LegibleText (.codes points)
  | .number value => value.isWritable = true ∧ value.Canonical
  | .list items => AllLegible items
  | .map entries => (entries.map (·.1)).Nodup ∧ EntriesLegible entries
  | _ => False

/-- All items can be read back. -/
def AllLegible : List Datum → Prop
  | [] => True
  | item :: rest => Legible item ∧ AllLegible rest

/-- All keys of entries are texts that can be read back, and so are all values. -/
def EntriesLegible : List (Datum × Datum) → Prop
  | [] => True
  | (key, item) :: rest => LegibleText key ∧ Legible item ∧ EntriesLegible rest

end

theorem allLegible_iff {items : List Datum} : AllLegible items ↔ ∀ item ∈ items, item.Legible := by
  induction items with
  | nil => simp [AllLegible]
  | cons item rest ih => simp [AllLegible, ih]

theorem entriesLegible_iff {entries : List (Datum × Datum)} :
    EntriesLegible entries ↔ ∀ entry ∈ entries, entry.1.LegibleText ∧ entry.2.Legible := by
  induction entries with
  | nil => simp [EntriesLegible]
  | cons entry rest ih => simp [EntriesLegible, ih, and_assoc]

mutual

/-- The number of lists and mappings that are nested in a value. -/
def nesting : Datum → Nat
  | .list items => 1 + itemsNesting items
  | .map entries => 1 + entriesNesting entries
  | _ => 0

/-- The greatest number of lists and mappings nested in one of some items. -/
def itemsNesting : List Datum → Nat
  | [] => 0
  | item :: rest => max (nesting item) (itemsNesting rest)

/-- The greatest number of lists and mappings nested in the value of one of some entries. -/
def entriesNesting : List (Datum × Datum) → Nat
  | [] => 0
  | (_, item) :: rest => max (nesting item) (entriesNesting rest)

end

mutual

/-- No more lists and mappings are nested in a value than it has levels. -/
theorem nesting_le_height : (value : Datum) → value.nesting ≤ value.height
  | .list items => Nat.add_le_add_left (itemsNesting_le_height items) 1
  | .map entries => Nat.add_le_add_left (entriesNesting_le_height entries) 1
  | .null | .bool _ | .number _ | .text _ | .codes _ | .date _ | .moment _ | .bytes _ | .set _ | .pair _ _
  | .unresolved _ | .again _ => Nat.zero_le _

theorem itemsNesting_le_height : (items : List Datum) → itemsNesting items ≤ itemsHeight items
  | [] => Nat.le_refl 0
  | item :: rest => max_le_max (nesting_le_height item) (itemsNesting_le_height rest)

theorem entriesNesting_le_height : (entries : List (Datum × Datum)) →
    entriesNesting entries ≤ entriesHeight entries
  | [] => Nat.le_refl 0
  | (_, item) :: rest => max_le_max (nesting_le_height item) (entriesNesting_le_height rest)

end

theorem itemsNesting_le_iff {items : List Datum} {limit : Nat} :
    itemsNesting items ≤ limit ↔ ∀ item ∈ items, item.nesting ≤ limit := by
  induction items with
  | nil => simp [itemsNesting]
  | cons item rest ih => rw [itemsNesting, max_le_iff, ih, List.forall_mem_cons]

theorem entriesNesting_le_iff {entries : List (Datum × Datum)} {limit : Nat} :
    entriesNesting entries ≤ limit ↔ ∀ entry ∈ entries, entry.2.nesting ≤ limit := by
  induction entries with
  | nil => simp [entriesNesting]
  | cons entry rest ih => rw [entriesNesting, max_le_iff, ih, List.forall_mem_cons]

theorem LegibleText.legible {value : Datum} (h : value.LegibleText) : value.Legible := by
  match value, h with
  | .text _, _ => trivial
  | .codes _, h => exact h

theorem ofCodes_points {value : Datum} (h : value.LegibleText) : ofCodes value.points = value := by
  match value, h with
  | .text chars, _ => exact ofCodes_toList chars
  | .codes points, h => exact h.1

theorem unpaired_points {value : Datum} (h : value.LegibleText) : Json.Unpaired value.points := by
  match value, h with
  | .codes points, h => exact h.2
  | .text chars, _ =>
      have hvalid : ∀ code ∈ chars.toList.map Char.toNat, code < 0xD800 ∨ 0xDFFF < code ∧ code < 0x110000 := by
        intro code hcode
        obtain ⟨c, -, rfl⟩ := List.mem_map.mp hcode
        exact Json.toNat_valid c
      refine ⟨fun code hcode => ?_, ?_⟩
      · have := hvalid code hcode
        omega
      · refine (List.pairwise_of_forall_mem_list fun code hcode next _ => ?_).isChain
        have := hvalid code hcode
        unfold Json.IsHigh
        omega

theorem distinct_of_nodup {α : Type} {entries : List (Datum × α)}
    (h : ∀ key ∈ entries.map (·.1), LegibleText key) (hnodup : (entries.map (·.1)).Nodup) :
    Distinct entries := by
  rw [distinct_iff_keys]
  refine hnodup.imp_of_mem fun {first second} hfirst _ hne => ?_
  rw [← Bool.not_eq_true, ofCodes_sameKey ⟨first.points, (ofCodes_points (h first hfirst)).symm⟩]
  exact hne

end Datum

namespace Json

open Text

/-- A value with the entries of its mappings in the order of a style. -/
def Style.ordered (style : Style) (value : Datum) : Datum :=
  if style.sorted then value.sorted else value

/-- Entries in the order of a style. -/
def Style.arranged {α : Type} (style : Style) (entries : List (Datum × α)) : List (Datum × α) :=
  if style.sorted then entries.mergeSort Datum.entryLe else entries

/-- The text of a value that has one. -/
def textAt (style : Style) (level : Nat) (value : Datum) : String :=
  (writeAt style level value).toOption.getD ""

/-- The text of an entry. -/
def entryText (style : Style) (level : Nat) (entry : Datum × Datum) : String :=
  writeCodes style.ascii entry.1.points ++ ": " ++ textAt style level entry.2

section Written

variable (style : Style)

variable {style} in
theorem ordered_of_sorted {value : Datum} (h : value.sorted = value) : style.ordered value = value := by
  rw [Style.ordered, h, ite_self]

theorem ordered_list (items : List Datum) :
    style.ordered (.list items) = .list (items.map style.ordered) := by
  unfold Style.ordered
  split_ifs
  · rw [Datum.sorted, Datum.sortedItems_eq_map]
  · simp

theorem ordered_map (entries : List (Datum × Datum)) :
    style.ordered (.map entries) =
      .map ((style.arranged entries).map fun entry => (entry.1, style.ordered entry.2)) := by
  unfold Style.ordered Style.arranged
  split_ifs
  · rw [Datum.sorted, Datum.sortedEntries_eq_map, Datum.mergeSort_map_entries]
  · simp

theorem perm_arranged {α : Type} (entries : List (Datum × α)) : (style.arranged entries).Perm entries := by
  unfold Style.arranged
  split_ifs
  · exact List.mergeSort_perm entries _
  · exact .refl entries

variable {style}

theorem writeString_eq (ascii : Bool) (text : String) :
    writeString ascii text = writeCodes ascii (text.toList.map Char.toNat) := by
  have hcode : escapeCode ascii ∘ Char.toNat = escapeChar ascii := by
    funext c
    have hvalid : c.toNat.isValidChar := c.valid
    rw [Function.comp_apply, escapeCode, if_pos hvalid, Char.ofNat_toNat]
  rw [writeString, writeCodes, List.flatMap_map]
  congr 4
  exact hcode.symm

theorem writeKey_eq {key : Datum} (h : key.LegibleText) (ascii : Bool) :
    writeKey ascii key = .ok (writeCodes ascii key.points) := by
  match key, h with
  | .text text, _ =>
      rw [writeKey, writeString_eq]
      rfl
  | .codes points, _ => rfl

theorem arrange_arranged {entries : List (Datum × Datum)} (h : ∀ entry ∈ entries, entry.1.LegibleText)
    (text : Datum × Datum → String) :
    style.arrange (entries.map fun entry => (entry.1, text entry)) =
      .ok ((style.arranged entries).map text) := by
  rw [Style.arranged]
  cases hsorted : style.sorted with
  | false => simp [Style.arrange, hsorted, Function.comp_def]
  | true =>
      rw [if_pos rfl, arrange_of_sorted hsorted]
      intro entry hentry
      have hkey := h entry hentry
      cases hcase : entry.1 <;> rw [hcase] at hkey <;> first | rfl | exact False.elim hkey

theorem textAt_of_writeAt {level : Nat} {value : Datum} {text : String}
    (h : writeAt style level value = .ok text) : writeAt style level value = .ok (textAt style level value) := by
  rw [textAt, h]
  rfl

theorem writeAt_list {level : Nat} {items : List Datum} {members : List String}
    (h : writeItems style (level + 1) items = .ok members) :
    writeAt style level (.list items) = .ok (style.enclose level "[" "]" members) := by
  rw [writeAt, h]
  rfl

theorem writeAt_map {level : Nat} {entries : List (Datum × Datum)}
    (h : ∀ entry ∈ entries, entry.1.LegibleText) {text : Datum × Datum → String}
    (htext : writeEntries style (level + 1) entries = .ok (entries.map fun entry => (entry.1, text entry))) :
    writeAt style level (.map entries) =
      .ok (style.enclose level "\x7b" "\x7d" ((style.arranged entries).map text)) := by
  rw [writeAt, htext]
  change (style.arrange _ >>= fun members => Except.ok (style.enclose _ _ _ members)) = _
  rw [arrange_arranged h]
  rfl

theorem keys_of_entriesLegible {entries : List (Datum × Datum)} (h : Datum.EntriesLegible entries) :
    ∀ entry ∈ entries, entry.1.LegibleText :=
  fun entry hentry => (Datum.entriesLegible_iff.mp h entry hentry).1

mutual

/-- A value that can be read back has a text. -/
theorem writeAt_textAt : (value : Datum) → value.Legible → (level : Nat) →
    writeAt style level value = .ok (textAt style level value)
  | .null, _, _ | .bool _, _, _ | .text _, _, _ | .codes _, _, _ => rfl
  | .number _, h, _ => textAt_of_writeAt (writeNumber_eq h.1)
  | .list items, h, level => textAt_of_writeAt (writeAt_list (writeItems_textAt items h (level + 1)))
  | .map _, h, level =>
      textAt_of_writeAt (writeAt_map (keys_of_entriesLegible h.2) (writeEntries_textAt _ h.2 (level + 1)))

theorem writeItems_textAt : (items : List Datum) → Datum.AllLegible items → (level : Nat) →
    writeItems style level items = .ok (items.map (textAt style level))
  | [], _, _ => rfl
  | item :: rest, h, level => by
      rw [writeItems, writeAt_textAt item h.1, writeItems_textAt rest h.2]
      rfl

theorem writeEntries_textAt : (entries : List (Datum × Datum)) → Datum.EntriesLegible entries →
    (level : Nat) → writeEntries style level entries =
      .ok (entries.map fun entry => (entry.1, entryText style level entry))
  | [], _, _ => rfl
  | (key, item) :: rest, h, level => by
      rw [writeEntries, writeKey_eq h.1, writeAt_textAt item h.2.1, writeEntries_textAt rest h.2.2]
      rfl

end

end Written

section Layout

/-- A blank between values. -/
def isSpace (c : Char) : Bool :=
  c == ' ' || c == '\n' || c == '\t' || c == '\r'

theorem skipSpace_append {blank : List Char} (h : ∀ c ∈ blank, isSpace c = true) (text : List Char) :
    skipSpace (blank ++ text) = skipSpace text :=
  List.dropWhile_append_of_pos h

theorem skipSpace_cons {c : Char} (h : isSpace c = false) (rest : List Char) :
    skipSpace (c :: rest) = c :: rest :=
  List.dropWhile_cons_of_neg (by simpa [isSpace] using h)

theorem skipSpace_eq_nil {blank : List Char} (h : ∀ c ∈ blank, isSpace c = true) : skipSpace blank = [] :=
  List.dropWhile_eq_nil_iff.mpr h

/-- Behind blanks no number goes on. -/
theorem stops_of_blank {blank : List Char} (h : ∀ c ∈ blank, isSpace c = true) : Stops isNumberChar blank := by
  cases blank with
  | nil => simp [Stops]
  | cons c blank =>
      have hc := h c List.mem_cons_self
      simp only [isSpace, Bool.or_eq_true, beq_iff_eq] at hc
      obtain ((rfl | rfl) | rfl) | rfl := hc <;> exact .cons (by decide)

/-- Behind blanks and a mark no number goes on. -/
theorem stops_blank {blank : List Char} (h : ∀ c ∈ blank, isSpace c = true) {c : Char}
    (hc : isNumberChar c = false) (rest : List Char) : Stops isNumberChar (blank ++ c :: rest) := by
  cases blank with
  | nil => exact .cons hc
  | cons first blank => exact .cons (stops_of_blank h).head

theorem isSpace_newline (style : Style) (level : Nat) :
    ∀ c ∈ (style.newline level).toList, isSpace c = true := by
  intro c hc
  unfold Style.newline at hc
  split at hc
  · cases hc
  · rw [String.toList_append, List.mem_append] at hc
    obtain hc | hc := hc
    · obtain rfl := List.mem_singleton.mp hc
      rfl
    · rw [String.toList_ofList] at hc
      rw [List.eq_of_mem_replicate hc]
      rfl

theorem exists_separator (style : Style) (level : Nat) :
    ∃ blank, (∀ c ∈ blank, isSpace c = true) ∧ (style.separator level).toList = ',' :: blank := by
  unfold Style.separator
  split
  · exact ⟨[' '], by simp [isSpace], rfl⟩
  · refine ⟨(style.newline level).toList, isSpace_newline style level, ?_⟩
    rw [String.toList_append]
    rfl

/-- Members with commas and blanks between them. -/
def listed (between : List Char) (members : List (List Char)) : List Char :=
  (',' :: between).intercalate members

theorem listed_cons_cons (between member other : List Char) (members : List (List Char)) :
    listed between (member :: other :: members) =
      member ++ ',' :: (between ++ listed between (other :: members)) := by
  rw [listed, List.intercalate_cons_cons]
  simp [listed]

theorem listed_map {α : Type} (between : List Char) (f : α → List Char) (item other : α) (items : List α) :
    listed between ((item :: other :: items).map f) =
      f item ++ ',' :: (between ++ listed between ((other :: items).map f)) :=
  listed_cons_cons between _ _ _

theorem listed_singleton (between member : List Char) : listed between [member] = member := by
  simp [listed]

theorem toList_enclose_nil (style : Style) (level : Nat) (opening closing : String) :
    (style.enclose level opening closing []).toList = opening.toList ++ closing.toList := by
  rw [Style.enclose, if_pos List.isEmpty_nil, String.toList_append]

/-- Members stand between brackets with commas between them and blanks around. -/
theorem exists_enclose (style : Style) (level : Nat) (opening closing : String) {members : List String}
    (hne : members ≠ []) :
    ∃ before between behind, (∀ c ∈ before, isSpace c = true) ∧ (∀ c ∈ between, isSpace c = true) ∧
      (∀ c ∈ behind, isSpace c = true) ∧ (style.enclose level opening closing members).toList =
        opening.toList ++ (before ++
          (listed between (members.map String.toList) ++ (behind ++ closing.toList))) := by
  obtain ⟨between, hbetween, hseparator⟩ := exists_separator style (level + 1)
  refine ⟨_, between, _, isSpace_newline style (level + 1), hbetween, isSpace_newline style level, ?_⟩
  have hsome : ¬(members.isEmpty = true) := by simpa using hne
  rw [Style.enclose, if_neg hsome]
  simp only [String.toList_append, String.toList_intercalate, hseparator, List.append_assoc, listed]

end Layout

section Read

variable {limit depth : Nat}

/-- A character that a value may start with: no blank and no closing bracket. -/
def isOpening (c : Char) : Bool :=
  !(isSpace c || isClose c)

/-- A text that a value may start with. -/
def Opens (text : List Char) : Prop :=
  ∃ c rest, text = c :: rest ∧ isOpening c = true

theorem Opens.append {text : List Char} (h : Opens text) (rest : List Char) : Opens (text ++ rest) := by
  obtain ⟨c, more, rfl, hc⟩ := h
  exact ⟨c, more ++ rest, rfl, hc⟩

theorem Opens.skip {text : List Char} (h : Opens text) : skipSpace text = text := by
  obtain ⟨c, more, rfl, hc⟩ := h
  rw [isOpening, Bool.not_eq_true', Bool.or_eq_false_iff] at hc
  exact skipSpace_cons hc.1 more

theorem Opens.ne_close {text : List Char} (h : Opens text) {c : Char} (hc : isClose c = true)
    (rest : List Char) : text ≠ c :: rest := by
  obtain ⟨first, more, rfl, hfirst⟩ := h
  rw [Ne, List.cons.injEq, not_and]
  rintro rfl
  simp [isOpening, hc] at hfirst

/-- A value is read from a text inside a number of lists and objects, whatever follows it. -/
structure ReadsAs (limit depth : Nat) (text : List Char) (value : Datum) : Prop where
  opens : Opens text
  read : ∀ fuel rest, 2 * text.length ≤ fuel → Stops isNumberChar rest →
    readValue limit fuel depth (text ++ rest) = .ok (value, rest)

theorem exists_fuel {text : List Char} {fuel : Nat} (hne : text ≠ []) (h : 2 * text.length ≤ fuel) :
    ∃ fuel', fuel = fuel' + 1 := by
  have := List.length_pos_iff.mpr hne
  exact ⟨fuel - 1, by omega⟩

theorem readsAs_simple {text : List Char} {value : Datum} {c : Char} {more : List Char}
    (htext : text = c :: more) (hc : isOpening c = true ∧ c ≠ '"' ∧ c ≠ '[' ∧ c ≠ '\x7b')
    (h : ∀ rest, Stops isNumberChar rest → readSimple (text ++ rest) = .ok (value, rest)) :
    ReadsAs limit depth text value := by
  obtain ⟨hopening, hquote, hlist, hmap⟩ := hc
  refine ⟨⟨c, more, htext, hopening⟩, fun fuel rest hfuel hrest => ?_⟩
  obtain ⟨fuel, rfl⟩ := exists_fuel (htext ▸ List.cons_ne_nil _ _) hfuel
  have hne {other : Char} (hother : c ≠ other) (tail : List Char) : text ++ rest ≠ other :: tail := by
    rw [htext, List.cons_append, Ne, List.cons.injEq, not_and]
    exact fun heq => absurd heq hother
  rw [readValue]
  · exact h rest hrest
  · exact hne hquote
  · exact hne hlist
  · exact hne hmap

theorem readsAs_number {number : Number} (hwritable : number.isWritable = true) (h : number.Canonical) :
    ReadsAs limit depth (numberLine number) (.number number) := by
  obtain ⟨c, more, hline, hc⟩ := exists_numberLine number
  have hopening : isOpening c = true ∧ c ≠ '"' ∧ c ≠ '[' ∧ c ≠ '\x7b' := by
    obtain hdigit | rfl | rfl | rfl := hc
    · have hne (other : Char) (hother : other.isDigit = false) : c ≠ other := ne_of_isDigit hdigit hother
      simp [isOpening, isSpace, isClose, hne ' ' rfl, hne '\n' rfl, hne '\t' rfl, hne '\r' rfl, hne ',' rfl,
        hne ']' rfl, hne '\x7d' rfl, hne '"' rfl, hne '[' rfl, hne '\x7b' rfl]
    all_goals decide
  exact readsAs_simple hline hopening fun rest hrest => readSimple_numberLine hwritable h hrest

theorem readsAs_null : ReadsAs limit depth "null".toList .null :=
  @readsAs_simple _ _ _ _ 'n' "ull".toList rfl (by decide) fun _ _ => rfl

theorem readsAs_bool (value : Bool) :
    ReadsAs limit depth (if value then "true" else "false").toList (.bool value) := by
  cases value with
  | true => exact @readsAs_simple _ _ _ _ 't' "rue".toList rfl (by decide) fun _ _ => rfl
  | false => exact @readsAs_simple _ _ _ _ 'f' "alse".toList rfl (by decide) fun _ _ => rfl

theorem toList_writeCodes (ascii : Bool) (points : List Nat) :
    (writeCodes ascii points).toList = '"' :: (points.flatMap (escapeCode ascii) ++ ['"']) := by
  rw [writeCodes, String.toList_ofList]
  rfl

theorem readBody_points {value : Datum} (h : value.LegibleText) (ascii : Bool) (rest : List Char) :
    readBody ((value.points.flatMap (escapeCode ascii) ++ '"' :: rest).length + 1)
      (value.points.flatMap (escapeCode ascii) ++ '"' :: rest) = .ok (value.points, rest) := by
  refine readBody_codes (Datum.unpaired_points h) ascii ?_ rest
  have := length_le_escaped ascii value.points
  rw [List.length_append]
  omega

theorem readsAs_text {value : Datum} (h : value.LegibleText) (ascii : Bool) :
    ReadsAs limit depth (writeCodes ascii value.points).toList value := by
  rw [toList_writeCodes]
  refine ⟨⟨'"', _, rfl, by decide⟩, fun fuel rest hfuel _ => ?_⟩
  obtain ⟨fuel, rfl⟩ := exists_fuel (List.cons_ne_nil _ _) hfuel
  have hsplit : '"' :: (value.points.flatMap (escapeCode ascii) ++ ['"']) ++ rest =
      '"' :: (value.points.flatMap (escapeCode ascii) ++ '"' :: rest) := by
    simp
  rw [hsplit]
  change (readBody _ _ >>= _) = _
  rw [readBody_points h ascii rest]
  change Except.ok (Datum.ofCodes value.points, rest) = _
  rw [Datum.ofCodes_points h]

section Step

variable {fuel : Nat} {text rest tail final : List Char} {item : Datum}

theorem readValue_noItems (hdepth : depth < limit) (hrest : skipSpace rest = ']' :: tail) :
    readValue limit (fuel + 1) depth ('[' :: rest) = .ok (.list [], tail) := by
  refine (if_neg (Nat.not_le.mpr hdepth)).trans ?_
  rw [hrest]
  rfl

theorem readValue_items (hdepth : depth < limit) (hrest : Opens (skipSpace rest)) {items : List Datum}
    (hitems : readItems limit fuel (depth + 1) (skipSpace rest) = .ok (items, final)) :
    readValue limit (fuel + 1) depth ('[' :: rest) = .ok (.list items, final) := by
  refine (if_neg (Nat.not_le.mpr hdepth)).trans ?_
  split
  · rename_i heq
    exact absurd heq (hrest.ne_close rfl _)
  · rw [hitems]
    rfl

theorem readValue_noEntries (hdepth : depth < limit) (hrest : skipSpace rest = '\x7d' :: tail) :
    readValue limit (fuel + 1) depth ('\x7b' :: rest) = .ok (.map [], tail) := by
  refine (if_neg (Nat.not_le.mpr hdepth)).trans ?_
  rw [hrest]
  rfl

theorem readValue_entries (hdepth : depth < limit) (hrest : Opens (skipSpace rest))
    {entries : List (Datum × Datum)}
    (hentries : readEntries limit fuel (depth + 1) (skipSpace rest) = .ok (entries, final)) :
    readValue limit (fuel + 1) depth ('\x7b' :: rest) = .ok (.map (Datum.distinctEntries entries), final) := by
  refine (if_neg (Nat.not_le.mpr hdepth)).trans ?_
  split
  · rename_i heq
    exact absurd heq (hrest.ne_close rfl _)
  · rw [hentries]
    rfl

theorem readItems_last (hitem : readValue limit fuel depth text = .ok (item, rest))
    (hrest : skipSpace rest = ']' :: tail) :
    readItems limit (fuel + 1) depth text = .ok ([item], tail) := by
  change (readValue limit fuel depth text >>= _) = _
  rw [hitem]
  simp only [bind, Except.bind, hrest]
  rfl

theorem readItems_more (hitem : readValue limit fuel depth text = .ok (item, rest))
    (hrest : skipSpace rest = ',' :: tail) {items : List Datum}
    (hmore : readItems limit fuel depth (skipSpace tail) = .ok (items, final)) :
    readItems limit (fuel + 1) depth text = .ok (item :: items, final) := by
  change (readValue limit fuel depth text >>= _) = _
  rw [hitem]
  simp only [bind, Except.bind, hrest, hmore]
  rfl

variable {key : Datum} (hkey : key.LegibleText) (ascii : Bool) (htext : Opens text)

/-- A key as it is written, with what follows it. -/
def keyed (ascii : Bool) (key : Datum) (text : List Char) : List Char :=
  '"' :: (key.points.flatMap (escapeCode ascii) ++ '"' :: ':' :: ' ' :: text)

include hkey htext

theorem readEntries_last (hitem : readValue limit fuel depth text = .ok (item, rest))
    (hrest : skipSpace rest = '\x7d' :: tail) :
    readEntries limit (fuel + 1) depth (keyed ascii key text) = .ok ([(key, item)], tail) := by
  have hskip : skipSpace (' ' :: text) = text := htext.skip
  change (readBody _ _ >>= _) = _
  rw [readBody_points hkey ascii]
  simp only [bind, Except.bind, skipSpace_cons (by decide : isSpace ':' = false), hskip, hitem, hrest,
    Datum.ofCodes_points hkey]
  rfl

theorem readEntries_more (hitem : readValue limit fuel depth text = .ok (item, rest))
    (hrest : skipSpace rest = ',' :: tail) {entries : List (Datum × Datum)}
    (hmore : readEntries limit fuel depth (skipSpace tail) = .ok (entries, final)) :
    readEntries limit (fuel + 1) depth (keyed ascii key text) = .ok ((key, item) :: entries, final) := by
  have hskip : skipSpace (' ' :: text) = text := htext.skip
  change (readBody _ _ >>= _) = _
  rw [readBody_points hkey ascii]
  simp only [bind, Except.bind, skipSpace_cons (by decide : isSpace ':' = false), hskip, hitem, hrest,
    Datum.ofCodes_points hkey, hmore]
  rfl

end Step

section Members

variable {α : Type} {text : α → List Char} {between behind : List Char}
  (hbetween : ∀ c ∈ between, isSpace c = true) (hbehind : ∀ c ∈ behind, isSpace c = true)

theorem Opens.listed {members : List (List Char)} (hne : members ≠ [])
    (h : ∀ member ∈ members, Opens member) : Opens (listed between members) := by
  obtain ⟨member, rest, rfl⟩ := List.exists_cons_of_ne_nil hne
  have hmember := h member List.mem_cons_self
  cases rest with
  | nil => rwa [listed_singleton]
  | cons other rest =>
      rw [listed_cons_cons]
      exact hmember.append _

include hbetween hbehind

/-- The items of a list are read one after the other. -/
theorem readItems_listed {value : α → Datum} {items : List α} (hne : items ≠ [])
    (hitems : ∀ item ∈ items, ReadsAs limit depth (text item) (value item)) {fuel : Nat}
    (hfuel : 2 * (listed between (items.map text)).length < fuel) (rest : List Char) :
    readItems limit fuel depth (listed between (items.map text) ++ (behind ++ ']' :: rest)) =
      .ok (items.map value, rest) := by
  obtain ⟨item, items, rfl⟩ := List.exists_cons_of_ne_nil hne
  clear hne
  induction items generalizing item fuel with
  | nil =>
      obtain ⟨fuel, rfl⟩ : ∃ fuel', fuel = fuel' + 1 := ⟨fuel - 1, by omega⟩
      have hitem := hitems item List.mem_cons_self
      rw [List.map_singleton, listed_singleton] at hfuel ⊢
      refine readItems_last (hitem.read fuel _ (by omega) (stops_blank hbehind (by decide) rest)) ?_
      rw [skipSpace_append hbehind, skipSpace_cons (by decide)]
  | cons other items ih =>
      obtain ⟨fuel, rfl⟩ : ∃ fuel', fuel = fuel' + 1 := ⟨fuel - 1, by omega⟩
      obtain ⟨hitem, hmore⟩ := List.forall_mem_cons.mp hitems
      rw [listed_map] at hfuel ⊢
      simp only [List.length_append, List.length_cons] at hfuel
      have hopens : Opens (listed between ((other :: items).map text)) :=
        .listed (by simp) (List.forall_mem_map.mpr fun item hmem => (hmore item hmem).opens)
      rw [List.append_assoc, List.cons_append, List.append_assoc]
      refine readItems_more (hitem.read fuel _ (by omega) (.cons (by decide)))
        (skipSpace_cons (by decide) _) ?_
      rw [skipSpace_append hbetween, (hopens.append _).skip]
      exact ih other hmore (by omega)

/-- The entries of an object are read one after the other. -/
theorem readEntries_listed {value : Datum × Datum → Datum} {text : Datum × Datum → List Char}
    (ascii : Bool) {entries : List (Datum × Datum)} (hne : entries ≠ [])
    (hkeys : ∀ entry ∈ entries, entry.1.LegibleText)
    (hitems : ∀ entry ∈ entries, ReadsAs limit depth (text entry) (value entry)) {fuel : Nat}
    (hfuel : 2 * (listed between (entries.map fun entry => keyed ascii entry.1 (text entry))).length < fuel)
    (rest : List Char) :
    readEntries limit fuel depth
        (listed between (entries.map fun entry => keyed ascii entry.1 (text entry)) ++
          (behind ++ '\x7d' :: rest)) =
      .ok (entries.map fun entry => (entry.1, value entry), rest) := by
  have hkeyed (key : Datum) (text rest : List Char) :
      keyed ascii key text ++ rest = keyed ascii key (text ++ rest) := by
    simp [keyed]
  have hlength (key : Datum) (text : List Char) : text.length ≤ (keyed ascii key text).length := by
    simp only [keyed, List.length_cons, List.length_append]
    omega
  obtain ⟨entry, entries, rfl⟩ := List.exists_cons_of_ne_nil hne
  clear hne
  induction entries generalizing entry fuel with
  | nil =>
      obtain ⟨fuel, rfl⟩ : ∃ fuel', fuel = fuel' + 1 := ⟨fuel - 1, by omega⟩
      have hitem := hitems entry List.mem_cons_self
      have hsize := hlength entry.1 (text entry)
      rw [List.map_singleton, listed_singleton] at hfuel ⊢
      rw [hkeyed]
      refine readEntries_last (hkeys entry List.mem_cons_self) ascii (hitem.opens.append _)
        (hitem.read fuel _ (by omega) (stops_blank hbehind (by decide) rest)) ?_
      rw [skipSpace_append hbehind, skipSpace_cons (by decide)]
  | cons other entries ih =>
      obtain ⟨fuel, rfl⟩ : ∃ fuel', fuel = fuel' + 1 := ⟨fuel - 1, by omega⟩
      obtain ⟨hitem, hmore⟩ := List.forall_mem_cons.mp hitems
      obtain ⟨hkey, hnames⟩ := List.forall_mem_cons.mp hkeys
      have hsize := hlength entry.1 (text entry)
      rw [listed_map] at hfuel ⊢
      simp only [List.length_append, List.length_cons] at hfuel
      have hopens : Opens (listed between
          ((other :: entries).map fun entry => keyed ascii entry.1 (text entry))) :=
        .listed (by simp) (List.forall_mem_map.mpr fun entry _ => ⟨'"', _, rfl, by decide⟩)
      rw [List.append_assoc, List.cons_append, List.append_assoc, hkeyed]
      refine readEntries_more hkey ascii (hitem.opens.append _)
        (hitem.read fuel _ (by omega) (.cons (by decide))) (skipSpace_cons (by decide) _) ?_
      rw [skipSpace_append hbetween, (hopens.append _).skip]
      exact ih other hnames hmore (by omega)

end Members

theorem toList_entryText (style : Style) (level : Nat) (entry : Datum × Datum) :
    (entryText style level entry).toList = keyed style.ascii entry.1 (textAt style level entry.2).toList := by
  rw [entryText, String.toList_append, String.toList_append, toList_writeCodes, keyed]
  simp

section Value

variable (style : Style) (level : Nat)

/-- A value is read from members between brackets when it is read behind the blanks that follow the first
bracket. -/
theorem readsAs_enclosed {opening closing : String} {first last : Char} (hopening : opening.toList = [first])
    (hclosing : closing.toList = [last]) (hfirst : isOpening first = true) {members : List String}
    (hne : members ≠ []) (hmembers : ∀ member ∈ members, Opens member.toList) {value : Datum}
    (hread : ∀ between behind, (∀ c ∈ between, isSpace c = true) → (∀ c ∈ behind, isSpace c = true) →
      ∀ fuel text rest, 2 * (listed between (members.map String.toList)).length < fuel →
        Opens (skipSpace text) →
        skipSpace text = listed between (members.map String.toList) ++ (behind ++ last :: rest) →
        readValue limit (fuel + 1) depth (first :: text) = .ok (value, rest)) :
    ReadsAs limit depth (style.enclose level opening closing members).toList value := by
  obtain ⟨before, between, behind, hbefore, hbetween, hbehind, htext⟩ :=
    exists_enclose style level opening closing hne
  have hopens : Opens (listed between (members.map String.toList)) :=
    .listed (by simpa using hne) (List.forall_mem_map.mpr hmembers)
  rw [htext, hopening, hclosing]
  refine ⟨⟨first, _, rfl, hfirst⟩, fun fuel rest hfuel _ => ?_⟩
  obtain ⟨fuel, rfl⟩ := exists_fuel (by simp) hfuel
  simp only [List.length_append, List.length_singleton] at hfuel
  have hskip : skipSpace (before ++ (listed between (members.map String.toList) ++ (behind ++ [last])) ++ rest) =
      listed between (members.map String.toList) ++ (behind ++ last :: rest) := by
    rw [List.append_assoc, skipSpace_append hbefore, List.append_assoc, List.append_assoc,
      List.singleton_append, (hopens.append _).skip]
  exact hread between behind hbetween hbehind fuel _ rest (by omega) (hskip ▸ hopens.append _) hskip

variable (hdepth : depth < limit)

include hdepth

/-- A list is read from its text when its items are. -/
theorem readsAs_list {items : List Datum} {text : Datum → String} {value : Datum → Datum}
    (hitems : ∀ item ∈ items, ReadsAs limit (depth + 1) (text item).toList (value item)) :
    ReadsAs limit depth (style.enclose level "[" "]" (items.map text)).toList
      (.list (items.map value)) := by
  by_cases hne : items = []
  · obtain rfl := hne
    rw [List.map_nil, toList_enclose_nil]
    refine ⟨⟨'[', [']'], rfl, by decide⟩, fun fuel rest hfuel _ => ?_⟩
    obtain ⟨fuel, rfl⟩ := exists_fuel (by simp) hfuel
    exact readValue_noItems hdepth (skipSpace_cons (by decide) rest)
  · have hopens : ∀ member ∈ items.map text, Opens member.toList :=
      List.forall_mem_map.mpr fun item hmem => (hitems item hmem).opens
    refine readsAs_enclosed style level rfl rfl (by decide) (by simpa using hne) hopens ?_
    intro between behind hbetween hbehind fuel rest tail hfuel hstarts hskip
    refine readValue_items hdepth hstarts ?_
    rw [List.map_map] at hfuel hskip
    rw [hskip]
    exact readItems_listed hbetween hbehind hne hitems hfuel tail

/-- An object is read from its text when the values of its entries are. -/
theorem readsAs_map {entries : List (Datum × Datum)} (hkeys : ∀ entry ∈ entries, entry.1.LegibleText)
    (hnodup : (entries.map (·.1)).Nodup) {value : Datum → Datum}
    (hitems : ∀ entry ∈ entries,
      ReadsAs limit (depth + 1) (textAt style (level + 1) entry.2).toList (value entry.2)) :
    ReadsAs limit depth
      (style.enclose level "\x7b" "\x7d" (entries.map (entryText style (level + 1)))).toList
      (.map (entries.map fun entry => (entry.1, value entry.2))) := by
  by_cases hne : entries = []
  · obtain rfl := hne
    rw [List.map_nil, toList_enclose_nil]
    refine ⟨⟨'\x7b', ['\x7d'], rfl, by decide⟩, fun fuel rest hfuel _ => ?_⟩
    obtain ⟨fuel, rfl⟩ := exists_fuel (by simp) hfuel
    exact readValue_noEntries hdepth (skipSpace_cons (by decide) rest)
  · have hkeyed : (entries.map (entryText style (level + 1))).map String.toList =
        entries.map fun entry => keyed style.ascii entry.1 (textAt style (level + 1) entry.2).toList := by
      rw [List.map_map]
      exact List.map_congr_left fun entry _ => toList_entryText style (level + 1) entry
    have hopens : ∀ member ∈ entries.map (entryText style (level + 1)), Opens member.toList := by
      refine List.forall_mem_map.mpr fun entry _ => ?_
      rw [toList_entryText]
      exact ⟨'"', _, rfl, by decide⟩
    -- No key comes twice, so no entry is dropped when the object is put together.
    have hdistinct : Datum.Distinct (entries.map fun entry => (entry.1, value entry.2)) := by
      refine Datum.distinct_of_nodup (fun key hkey => ?_) (by simpa [Function.comp_def] using hnodup)
      simp only [List.map_map, List.mem_map, Function.comp_apply] at hkey
      obtain ⟨entry, hentry, rfl⟩ := hkey
      exact hkeys entry hentry
    refine readsAs_enclosed style level rfl rfl (by decide) (by simpa using hne) hopens ?_
    intro between behind hbetween hbehind fuel rest tail hfuel hstarts hskip
    rw [hkeyed] at hfuel hskip
    rw [← Datum.distinctEntries_of_distinct hdistinct]
    refine readValue_entries hdepth hstarts ?_
    rw [hskip]
    exact readEntries_listed hbetween hbehind style.ascii hne hkeys hitems hfuel tail

end Value

mutual

/-- A value is read from its text with its entries in the order of the style. -/
theorem readsAs_textAt (style : Style) : (value : Datum) → value.Legible → (level depth : Nat) →
    depth + value.nesting ≤ limit →
      ReadsAs limit depth (textAt style level value).toList (style.ordered value)
  | .null, _, _, _, _ => by
      rw [ordered_of_sorted rfl]
      exact readsAs_null
  | .bool value, _, _, _, _ => by
      rw [ordered_of_sorted rfl]
      exact readsAs_bool value
  | .text chars, _, level, _, _ => by
      have htext : textAt style level (.text chars) = writeCodes style.ascii (Datum.text chars).points :=
        writeString_eq style.ascii chars
      rw [ordered_of_sorted rfl, htext]
      exact @readsAs_text _ _ (.text chars) trivial style.ascii
  | .codes points, h, _, _, _ => by
      rw [ordered_of_sorted rfl]
      exact @readsAs_text _ _ (.codes points) h style.ascii
  | .number number, h, level, _, _ => by
      have htext : (textAt style level (.number number)).toList = numberLine number := by
        rw [textAt, writeAt, writeNumber_eq h.1]
        exact String.toList_ofList
      rw [ordered_of_sorted rfl, htext]
      exact readsAs_number h.1 h.2
  | .list items, h, level, depth, hnesting => by
      rw [Datum.nesting] at hnesting
      rw [textAt, writeAt_list (writeItems_textAt items h (level + 1)), ordered_list]
      exact readsAs_list style level (by omega) (readsAs_items style items h (level + 1) (depth + 1) (by omega))
  | .map entries, h, level, depth, hnesting => by
      have hkeys := keys_of_entriesLegible h.2
      have hperm := perm_arranged style entries
      rw [Datum.nesting] at hnesting
      rw [textAt, writeAt_map hkeys (writeEntries_textAt entries h.2 (level + 1)), ordered_map]
      have hitems := readsAs_entries style entries h.2 (level + 1) (depth + 1) (by omega)
      exact readsAs_map style level (by omega) (fun entry hentry => hkeys entry (hperm.mem_iff.mp hentry))
        ((hperm.map _).nodup_iff.mpr h.1) fun entry hentry => hitems entry (hperm.mem_iff.mp hentry)

theorem readsAs_items (style : Style) : (items : List Datum) → Datum.AllLegible items →
    (level depth : Nat) → depth + Datum.itemsNesting items ≤ limit → ∀ item ∈ items,
      ReadsAs limit depth (textAt style level item).toList (style.ordered item)
  | [], _, _, _, _ => by simp
  | item :: rest, h, level, depth, hnesting => by
      rw [Datum.itemsNesting] at hnesting
      exact List.forall_mem_cons.mpr ⟨readsAs_textAt style item h.1 level depth (by omega),
        readsAs_items style rest h.2 level depth (by omega)⟩

theorem readsAs_entries (style : Style) : (entries : List (Datum × Datum)) →
    Datum.EntriesLegible entries → (level depth : Nat) → depth + Datum.entriesNesting entries ≤ limit →
      ∀ entry ∈ entries, ReadsAs limit depth (textAt style level entry.2).toList (style.ordered entry.2)
  | [], _, _, _, _ => by simp
  | (_, item) :: rest, h, level, depth, hnesting => by
      rw [Datum.entriesNesting] at hnesting
      exact List.forall_mem_cons.mpr ⟨readsAs_textAt style item h.2.1 level depth (by omega),
        readsAs_entries style rest h.2.2 level depth (by omega)⟩

end

end Read

/-- A value that JSON has a form for has a text, and it is read back from that text, whatever blanks stand
behind it, with the entries of mappings in the order in which they were written, wherever as many lists and
mappings are read as are nested in it. -/
theorem readWithin_write_nested {value : Datum} (h : value.Legible) (style : Style) :
    ∃ text, write style value = .ok text ∧ ∀ limit, value.nesting ≤ limit → ∀ blank,
      (∀ c ∈ blank, isSpace c = true) → readWithin limit (text.toList ++ blank) = .ok (style.ordered value) := by
  refine ⟨_, writeAt_textAt value h 0, fun limit hlimit blank hblank => ?_⟩
  have hreads := @readsAs_textAt limit style value h 0 0 (by omega)
  have hread := hreads.read (2 * ((textAt style 0 value).toList ++ blank).length + 2) blank
    (by rw [List.length_append]; omega) (stops_of_blank hblank)
  rw [readWithin, (hreads.opens.append blank).skip, hread]
  simp only [bind, Except.bind, skipSpace_eq_nil hblank]
  rfl

theorem readWithin_write_append {value : Datum} (h : value.Legible) (style : Style) :
    ∃ text, write style value = .ok text ∧ ∀ limit, value.height ≤ limit → ∀ blank,
      (∀ c ∈ blank, isSpace c = true) → readWithin limit (text.toList ++ blank) = .ok (style.ordered value) := by
  obtain ⟨text, htext, hread⟩ := readWithin_write_nested h style
  exact ⟨text, htext, fun limit hlimit => hread limit (value.nesting_le_height.trans hlimit)⟩

theorem readWithin_write {value : Datum} (h : value.Legible) (style : Style) :
    ∃ text, write style value = .ok text ∧ ∀ limit, value.height ≤ limit →
      readWithin limit text.toList = .ok (style.ordered value) := by
  obtain ⟨text, htext, hread⟩ := readWithin_write_append h style
  exact ⟨text, htext, fun limit hlimit => by simpa using hread limit hlimit [] (by simp)⟩

end Json

end DocCompiler
