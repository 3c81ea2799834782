import DocCompiler.Document.Example
import DocCompiler.Proofs.Data.Registry
import Mathlib.Data.List.Infix

/-!
Values at paths of keys, and changes there. What a path leads to after a change is what was changed there, or what
it led to before when neither path goes on from the other.
-/

namespace DocCompiler

namespace Datum

section Entries

variable {key other name value : Datum} {change : Datum → Datum} {entries : List (Datum × Datum)}

theorem changeEntry_cons_of_same (h : name.sameKey key = true) :
    changeEntry key change ((name, value) :: entries) = (name, change value) :: entries :=
  if_pos h

theorem changeEntry_cons_of_ne (h : ¬ name.sameKey key = true) :
    changeEntry key change ((name, value) :: entries) = (name, value) :: changeEntry key change entries :=
  if_neg h

theorem keys_changeEntry (key : Datum) (change : Datum → Datum) (entries : List (Datum × Datum)) :
    (changeEntry key change entries).map (·.1) = entries.map (·.1) := by
  induction entries with
  | nil => rfl
  | cons entry rest ih =>
      rcases entry with ⟨name, value⟩
      by_cases h : name.sameKey key = true
      · rw [changeEntry_cons_of_same h, List.map_cons, List.map_cons]
      · rw [changeEntry_cons_of_ne h, List.map_cons, List.map_cons, ih]

theorem lookup_changeEntry_self : lookup key (changeEntry key change entries) = (lookup key entries).map change := by
  induction entries with
  | nil => rfl
  | cons entry rest ih =>
      rcases entry with ⟨name, value⟩
      by_cases h : name.sameKey key = true
      · rw [changeEntry_cons_of_same h, lookup_cons_of_same h, lookup_cons_of_same h, Option.map_some]
      · rw [changeEntry_cons_of_ne h, lookup_cons_of_ne h, lookup_cons_of_ne h, ih]

theorem lookup_changeEntry_of_ne (hkey : key.asText = key) (hne : key.sameKey other = false) :
    lookup other (changeEntry key change entries) = lookup other entries := by
  induction entries with
  | nil => rfl
  | cons entry rest ih =>
      rcases entry with ⟨name, value⟩
      by_cases h : name.sameKey key = true
      · obtain rfl := (sameKey_iff_eq (.inr hkey)).mp h
        have hother := Bool.eq_false_iff.mp hne
        rw [changeEntry_cons_of_same h, lookup_cons_of_ne hother, lookup_cons_of_ne hother]
      · rw [changeEntry_cons_of_ne h, lookup, lookup, ih]

theorem changeEntry_changeEntry (first second : Datum → Datum) :
    changeEntry key second (changeEntry key first entries) = changeEntry key (second ∘ first) entries := by
  induction entries with
  | nil => rfl
  | cons entry rest ih =>
      rcases entry with ⟨name, value⟩
      by_cases h : name.sameKey key = true
      · rw [changeEntry_cons_of_same h, changeEntry_cons_of_same h, changeEntry_cons_of_same h, Function.comp_apply]
      · rw [changeEntry_cons_of_ne h, changeEntry_cons_of_ne h, changeEntry_cons_of_ne h, ih]

theorem changeEntry_of_lookup (h : ∀ found, lookup key entries = some found → change found = found) :
    changeEntry key change entries = entries := by
  induction entries with
  | nil => rfl
  | cons entry rest ih =>
      rcases entry with ⟨name, value⟩
      by_cases hname : name.sameKey key = true
      · rw [changeEntry_cons_of_same hname, h value (lookup_cons_of_same hname)]
      · rw [changeEntry_cons_of_ne hname, ih fun found hfound => h found ((lookup_cons_of_ne hname).trans hfound)]

theorem mem_changeEntry {entry : Datum × Datum} (h : entry ∈ changeEntry key change entries) :
    entry ∈ entries ∨ ∃ value, (entry.1, value) ∈ entries ∧ entry.1.sameKey key = true ∧ entry.2 = change value := by
  induction entries with
  | nil => cases h
  | cons first rest ih =>
      rcases first with ⟨name, value⟩
      by_cases hname : name.sameKey key = true
      · rw [changeEntry_cons_of_same hname] at h
        rcases List.mem_cons.mp h with rfl | hrest
        · exact .inr ⟨value, List.mem_cons_self, hname, rfl⟩
        · exact .inl (List.mem_cons_of_mem _ hrest)
      · rw [changeEntry_cons_of_ne hname] at h
        rcases List.mem_cons.mp h with rfl | hrest
        · exact .inl List.mem_cons_self
        · refine (ih hrest).imp (List.mem_cons_of_mem _) ?_
          rintro ⟨old, hold, hsame, hchange⟩
          exact ⟨old, List.mem_cons_of_mem _ hold, hsame, hchange⟩

end Entries

section Paths

variable {value found key : Datum} {path rest : DatumPath} {change : Datum → Datum}

theorem at?_map_singleton (key : Datum) (entries : List (Datum × Datum)) :
    (map entries).at? [key] = lookup key entries :=
  rfl

theorem at?_text_singleton (value : Datum) (name : String) : value.at? [.text name] = value.field? name := by
  cases value <;> rfl

theorem at?_cons (value key : Datum) (path : DatumPath) :
    value.at? (key :: path) = (value.at? [key]).bind (·.at? path) := by
  rw [at?, List.foldl_cons, at?, List.foldl_cons, List.foldl_nil]
  split
  · next entries _ =>
    cases lookup key entries with
    | some found => rfl
    | none =>
        -- Past a key that is not there no key leads anywhere.
        induction path with
        | nil => rfl
        | cons key path ih => exact ih
  · induction path with
    | nil => rfl
    | cons key path ih => exact ih

theorem at?_append (value : Datum) (path rest : DatumPath) :
    value.at? (path ++ rest) = (value.at? path).bind (·.at? rest) := by
  induction path generalizing value with
  | nil => rfl
  | cons key path ih =>
      rw [List.cons_append, at?_cons, at?_cons value key path, Option.bind_assoc]
      exact congrArg _ (funext ih)

/-- A change further on is a change of what stands under the first key. -/
theorem at?_changeAt_singleton (change : Datum → Datum) (key : Datum) (path : DatumPath) (value : Datum) :
    (changeAt change (key :: path) value).at? [key] = (value.at? [key]).map (changeAt change path) := by
  cases value with
  | map entries => exact lookup_changeEntry_self
  | _ => rfl

/-- What a path leads to that goes on from the one of a change. -/
theorem at?_changeAt_append (change : Datum → Datum) (path rest : DatumPath) (value : Datum) :
    (changeAt change path value).at? (path ++ rest) = (value.at? path).bind fun found => (change found).at? rest := by
  induction path generalizing value with
  | nil => rfl
  | cons key path ih =>
      rw [List.cons_append, at?_cons, at?_changeAt_singleton, at?_cons value key path]
      cases value.at? [key] with
      | none => rfl
      | some found => exact ih found

theorem at?_changeAt_self (change : Datum → Datum) (path : DatumPath) (value : Datum) :
    (changeAt change path value).at? path = (value.at? path).map change := by
  have happend := at?_changeAt_append change path [] value
  rw [List.append_nil] at happend
  rw [happend]
  cases value.at? path with
  | none => rfl
  | some found => rfl

/-- What a path leads to that neither goes on from the one of a change nor leads there. -/
theorem at?_changeAt_of_apart (hkeys : ∀ key ∈ path, key.asText = key) (hpath : ¬ path <+: rest)
    (hrest : ¬ rest <+: path) : (changeAt change path value).at? rest = value.at? rest := by
  induction path generalizing rest value with
  | nil => exact absurd List.nil_prefix hpath
  | cons key path ih =>
      obtain ⟨hkey, hkeys⟩ := List.forall_mem_cons.mp hkeys
      cases rest with
      | nil => exact absurd List.nil_prefix hrest
      | cons other rest =>
          rw [at?_cons, at?_cons value]
          by_cases hsame : key = other
          · subst hsame
            rw [List.cons_prefix_cons] at hpath hrest
            rw [at?_changeAt_singleton]
            cases value.at? [key] with
            | none => rfl
            | some found => exact ih hkeys (fun h => hpath ⟨rfl, h⟩) fun h => hrest ⟨rfl, h⟩
          · congr 1
            cases value with
            | map entries =>
                refine lookup_changeEntry_of_ne hkey ?_
                rw [Bool.eq_false_iff]
                exact fun h => hsame ((sameKey_iff_eq (.inl hkey)).mp h)
            | _ => rfl

/-- Of two changes in one place the second one is made after the first. -/
theorem changeAt_changeAt (first second : Datum → Datum) (path : DatumPath) (value : Datum) :
    changeAt second path (changeAt first path value) = changeAt (second ∘ first) path value := by
  induction path generalizing value with
  | nil => rfl
  | cons key path ih =>
      cases value with
      | map entries =>
          rw [changeAt, changeAt, changeEntry_changeEntry, changeAt]
          exact congrArg (fun change => map (changeEntry key change entries)) (funext ih)
      | _ => rfl

theorem changeAt_of_at? (h : ∀ found, value.at? path = some found → change found = found) :
    changeAt change path value = value := by
  induction path generalizing value with
  | nil => exact h value rfl
  | cons key path ih =>
      cases value with
      | map entries =>
          rw [changeAt, changeEntry_of_lookup]
          intro inner hinner
          refine ih fun found hfound => h found ?_
          rw [at?_cons, at?_map_singleton, hinner]
          exact hfound
      | _ => rfl

end Paths

end Datum

end DocCompiler
