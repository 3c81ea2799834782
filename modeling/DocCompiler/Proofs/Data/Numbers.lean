import DocCompiler.Data.Shape
import DocCompiler.Proofs.Number.Canonical

/-!
Conditions on the numbers that stand in a value, at any depth and also as keys.
-/

namespace DocCompiler

/-- A number with a value: a whole number, or a double-precision one that is neither infinite nor undefined. -/
def Number.IsFinite : Number → Prop
  | .int _ => True
  | .float value => value.isFinite = true

instance : DecidablePred Number.IsFinite
  | .int _ => .isTrue trivial
  | .float value => inferInstanceAs (Decidable (value.isFinite = true))

namespace Datum

section Numbers

variable (admits : Number → Prop)

mutual

/-- All numbers in a value are admitted. -/
def Numbers : Datum → Prop
  | .number value => admits value
  | .list items | .set items => AllNumbers items
  | .map entries => EntryNumbers entries
  | .pair first second => Numbers first ∧ Numbers second
  | _ => True

/-- All numbers in some items are admitted. -/
def AllNumbers : List Datum → Prop
  | [] => True
  | item :: rest => Numbers item ∧ AllNumbers rest

/-- All numbers in the keys and values of entries are admitted. -/
def EntryNumbers : List (Datum × Datum) → Prop
  | [] => True
  | (key, item) :: rest => Numbers key ∧ Numbers item ∧ EntryNumbers rest

end

variable {admits}

theorem allNumbers_iff {items : List Datum} :
    AllNumbers admits items ↔ ∀ item ∈ items, item.Numbers admits := by
  induction items with
  | nil => simp [AllNumbers]
  | cons item rest ih => simp [AllNumbers, ih]

theorem entryNumbers_iff {entries : List (Datum × Datum)} :
    EntryNumbers admits entries ↔ ∀ entry ∈ entries, entry.1.Numbers admits ∧ entry.2.Numbers admits := by
  induction entries with
  | nil => simp [EntryNumbers]
  | cons entry rest ih => simp [EntryNumbers, ih, and_assoc]

variable {value key : Datum}

theorem numbers_text (value : String) : (Datum.text value).Numbers admits :=
  trivial

theorem numbers_list_iff {items : List Datum} :
    (Datum.list items).Numbers admits ↔ ∀ item ∈ items, item.Numbers admits :=
  allNumbers_iff

theorem numbers_map_iff {entries : List (Datum × Datum)} :
    (Datum.map entries).Numbers admits ↔
      ∀ entry ∈ entries, entry.1.Numbers admits ∧ entry.2.Numbers admits :=
  entryNumbers_iff

theorem numbers_record {fields : List (String × Datum)} (h : ∀ field ∈ fields, field.2.Numbers admits) :
    (Datum.record fields).Numbers admits := by
  rw [record, numbers_map_iff, List.forall_mem_map]
  exact fun field hfield => ⟨trivial, h field hfield⟩

theorem numbers_ofCodes (points : List Nat) : (ofCodes points).Numbers admits := by
  unfold ofCodes
  split <;> trivial

theorem numbers_asText (value : Datum) : value.asText.Numbers admits := by
  unfold asText
  split <;> trivial

theorem numbers_members {members : List Datum} (hint : ∀ value, admits (.int value))
    (hvalue : value.Numbers admits) (h : value.members = .ok members) :
    ∀ member ∈ members, member.Numbers admits := by
  unfold Datum.members at h
  split at h
  case h_1 | h_2 =>
    cases h
    exact allNumbers_iff.mp hvalue
  case h_3 =>
    cases h
    exact List.forall_mem_map.mpr fun entry hentry => (entryNumbers_iff.mp hvalue entry hentry).1
  case h_4 =>
    cases h
    exact List.forall_mem_map.mpr fun _ _ => trivial
  case h_5 =>
    cases h
    exact List.forall_mem_map.mpr fun _ _ => numbers_ofCodes _
  case h_6 =>
    cases h
    exact List.forall_mem_map.mpr fun _ _ => hint _
  case h_7 =>
    cases h
    rw [Numbers] at hvalue
    simpa using hvalue
  case h_8 => cases h

end Numbers

end Datum

end DocCompiler
