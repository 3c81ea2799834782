import Mathlib.Data.List.Nodup
import DocCompiler.Json.Writer
import DocCompiler.Proofs.Number.Canonical

/-!
Lists in the order of a text that each member has: members with distinct texts have one order. Plain
values up to the order of entries: values whose mappings have texts as keys, with the entries of all
mappings in the order of their keys.
-/

namespace DocCompiler.Keyed

variable {α : Type} {key : α → String} {items others : List α}

/-- Whether a member comes before another one, or with it. -/
def le (key : α → String) (a b : α) : Bool :=
  decide (key a ≤ key b)

/-- Sorting gives one list for members that no two of come before each other. -/
theorem mergeSort_eq_of_antisymm {before : α → α → Bool}
    (htrans : ∀ a b c, before a b = true → before b c = true → before a c = true)
    (htotal : ∀ a b, (before a b || before b a) = true) (hperm : others.Perm items)
    (hantisymm : ∀ a ∈ items, ∀ b ∈ items, before a b = true → before b a = true → a = b) :
    others.mergeSort before = items.mergeSort before := by
  have hothers : (others.mergeSort before).Perm items := (List.mergeSort_perm others before).trans hperm
  refine List.Perm.eq_of_pairwise (fun a b ha hb hab hba => ?_) (List.pairwise_mergeSort htrans htotal others)
    (List.pairwise_mergeSort htrans htotal items) (hothers.trans (List.mergeSort_perm items before).symm)
  exact hantisymm a (hothers.mem_iff.mp ha) b (List.mem_mergeSort.mp hb) hab hba

theorem le_trans (key : α → String) (a b c : α) (hab : le key a b = true) (hbc : le key b c = true) :
    le key a c = true := by
  simp only [le, decide_eq_true_eq] at hab hbc ⊢
  exact String.le_trans hab hbc

theorem le_total (key : α → String) (a b : α) : (le key a b || le key b a) = true := by
  simp only [le, Bool.or_eq_true, decide_eq_true_eq]
  exact String.le_total _ _

theorem pairwise_mergeSort (key : α → String) (items : List α) :
    (items.mergeSort (le key)).Pairwise fun a b => le key a b = true :=
  List.pairwise_mergeSort (le_trans key) (le_total key) items

theorem mergeSort_eq_of_perm (hperm : others.Perm items) (hdistinct : (items.map key).Nodup) :
    others.mergeSort (le key) = items.mergeSort (le key) := by
  refine mergeSort_eq_of_antisymm (le_trans key) (le_total key) hperm fun a ha b hb hab hba => ?_
  simp only [le, decide_eq_true_eq] at hab hba
  exact List.inj_on_of_nodup_map hdistinct ha hb (String.le_antisymm hab hba)

end DocCompiler.Keyed

namespace DocCompiler.Datum

mutual

/-- A value of texts, numbers that have a text, truth values, absent values, and lists and mappings of
such, where the keys of mappings are texts. -/
def Plain : Datum → Prop
  | .null | .bool _ | .text _ => True
  | .number value => value.isWritable = true ∧ value.Canonical
  | .list items => AllPlain items
  | .map entries => EntriesPlain entries
  | _ => False

/-- All items are plain. -/
def AllPlain : List Datum → Prop
  | [] => True
  | item :: rest => Plain item ∧ AllPlain rest

/-- All keys of entries are texts, and all values are plain. -/
def EntriesPlain : List (Datum × Datum) → Prop
  | [] => True
  | (key, item) :: rest => (∃ name, key = .text name) ∧ Plain item ∧ EntriesPlain rest

end

/-- The order of entries by their keys. -/
def entryLe {α : Type} (a b : Datum × α) : Bool :=
  Json.keyLe a.1 b.1

mutual

/-- A value with the entries of all mappings in it in the order of their keys. -/
def sorted : Datum → Datum
  | .list items => .list (sortedItems items)
  | .map entries => .map ((sortedEntries entries).mergeSort entryLe)
  | value => value

/-- Items with the entries of all mappings in order. -/
def sortedItems : List Datum → List Datum
  | [] => []
  | item :: rest => sorted item :: sortedItems rest

/-- Entries whose values have the entries of all mappings in order. -/
def sortedEntries : List (Datum × Datum) → List (Datum × Datum)
  | [] => []
  | (key, item) :: rest => (key, sorted item) :: sortedEntries rest

end

theorem sortedItems_eq_map (items : List Datum) : sortedItems items = items.map sorted := by
  induction items with
  | nil => rfl
  | cons item rest ih => rw [sortedItems, ih, List.map_cons]

theorem sortedEntries_eq_map (entries : List (Datum × Datum)) :
    sortedEntries entries = entries.map fun entry => (entry.1, entry.2.sorted) := by
  induction entries with
  | nil => rfl
  | cons entry rest ih => rw [sortedEntries, ih, List.map_cons]

theorem allPlain_iff {items : List Datum} : AllPlain items ↔ ∀ item ∈ items, item.Plain := by
  induction items with
  | nil => simp [AllPlain]
  | cons item rest ih => simp [AllPlain, ih]

theorem entriesPlain_iff {entries : List (Datum × Datum)} :
    EntriesPlain entries ↔ ∀ entry ∈ entries, (∃ name, entry.1 = .text name) ∧ entry.2.Plain := by
  induction entries with
  | nil => simp [EntriesPlain]
  | cons entry rest ih => simp [EntriesPlain, ih, and_assoc]

/-- Entries are sorted before or after their values are changed. -/
theorem mergeSort_map_entries {α β : Type} (f : α → β) (entries : List (Datum × α)) :
    (entries.map fun entry => (entry.1, f entry.2)).mergeSort entryLe =
      (entries.mergeSort entryLe).map fun entry => (entry.1, f entry.2) := by
  refine (List.map_mergeSort (f := fun entry : Datum × α => (entry.1, f entry.2)) ?_).symm
  exact fun _ _ _ _ => rfl

mutual

/-- Values that are the same up to the order of the entries of their mappings, at any depth. -/
inductive Alike : Datum → Datum → Prop
  | self (value : Datum) : Alike value value
  | list {items others : List Datum} (h : AlikeItems items others) : Alike (.list items) (.list others)
  | map {entries changed others : List (Datum × Datum)} (hvalues : AlikeEntries entries changed)
      (horder : changed.Perm others) : Alike (.map entries) (.map others)

/-- Items that are the same one by one. -/
inductive AlikeItems : List Datum → List Datum → Prop
  | nil : AlikeItems [] []
  | cons {item other : Datum} {rest others : List Datum} (h : Alike item other) (hrest : AlikeItems rest others) :
      AlikeItems (item :: rest) (other :: others)

/-- Entries with the same keys whose values are the same one by one. -/
inductive AlikeEntries : List (Datum × Datum) → List (Datum × Datum) → Prop
  | nil : AlikeEntries [] []
  | cons {key item other : Datum} {rest others : List (Datum × Datum)} (h : Alike item other)
      (hrest : AlikeEntries rest others) : AlikeEntries ((key, item) :: rest) ((key, other) :: others)

end

mutual

/-- A value stays the same up to the order of entries when they are sorted. -/
theorem alike_sorted : (value : Datum) → Alike value value.sorted
  | .list items => .list (alikeItems_sorted items)
  | .map entries => .map (alikeEntries_sorted entries) (List.mergeSort_perm _ _).symm
  | .null | .bool _ | .number _ | .text _ | .codes _ | .date _ | .moment _ | .bytes _ | .set _ | .pair _ _
  | .unresolved _ | .again _ => .self _

theorem alikeItems_sorted : (items : List Datum) → AlikeItems items (sortedItems items)
  | [] => .nil
  | item :: rest => .cons (alike_sorted item) (alikeItems_sorted rest)

theorem alikeEntries_sorted : (entries : List (Datum × Datum)) → AlikeEntries entries (sortedEntries entries)
  | [] => .nil
  | (_, item) :: rest => .cons (alike_sorted item) (alikeEntries_sorted rest)

end

mutual

/-- A plain value stays plain when its entries are sorted. -/
theorem Plain.sorted : (value : Datum) → value.Plain → value.sorted.Plain
  | .null, h | .bool _, h | .text _, h | .number _, h => h
  | .list items, h => allPlain_sorted items h
  | .map entries, h => by
      have hentries := entriesPlain_iff.mp (entriesPlain_sorted entries h)
      exact entriesPlain_iff.mpr fun entry hentry => hentries entry (List.mem_mergeSort.mp hentry)

theorem allPlain_sorted : (items : List Datum) → AllPlain items → AllPlain (sortedItems items)
  | [], h => h
  | item :: rest, h => ⟨Plain.sorted item h.1, allPlain_sorted rest h.2⟩

theorem entriesPlain_sorted : (entries : List (Datum × Datum)) → EntriesPlain entries →
    EntriesPlain (sortedEntries entries)
  | [], h => h
  | (_, item) :: rest, h => ⟨h.1, Plain.sorted item h.2.1, entriesPlain_sorted rest h.2.2⟩

end

end DocCompiler.Datum
