import DocCompiler.Cache.Store
import DocCompiler.Proofs.Data.Registry
import DocCompiler.Proofs.Data.Result
import DocCompiler.Compile.Run
import Mathlib.Data.List.Induction

/-!
What a look for a unit does to a cache. Looks for different units find the same, and leave the same cache, in
either order. Caches up to the times that their entries were stored at: what a run leaves in the cache does not
depend on the time of the run otherwise.
-/

namespace DocCompiler.Cache

open Annotation

/-- What a look for a unit does to the cache. -/
inductive Effect
  | nothing
  | hit
  | miss
  | drop (identity : String)

namespace Effect

/-- The cache after a look. -/
def apply : Effect → Cache → Cache
  | .nothing, cache => cache
  | .hit, cache => { cache with hits := cache.hits + 1 }
  | .miss, cache => cache.missed
  | .drop identity, cache => cache.missed.without identity

/-- The unit whose entry is dropped, if one is. -/
def dropped? : Effect → Option String
  | .drop identity => some identity
  | _ => none

theorem apply_comm (first second : Effect) (cache : Cache) :
    second.apply (first.apply cache) = first.apply (second.apply cache) := by
  have hfilter (a b : Datum × Datum → Bool) (entries : List (Datum × Datum)) :
      (entries.filter a).filter b = (entries.filter b).filter a := by
    rw [List.filter_filter, List.filter_filter]
    simp only [Bool.and_comm]
  cases first with
  | nothing => rfl
  | hit | miss => cases second <;> rfl
  | drop identity =>
      cases second with
      | nothing | hit | miss => rfl
      -- Two entries go, the one or the other first.
      | drop other => simp only [apply, missed, without, hfilter]

end Effect

/-- The effect of a look for a unit. -/
def effect (cache : Cache) (identity digest : String) : Effect :=
  match cache.record? identity digest with
  | none => .miss
  | some record =>
      match AnnotatedUnit.ofRecord identity record with
      | .ok _ => .hit
      | .error error => if isDamage error then .drop identity else .nothing

variable {cache other : Cache} {identity digest : String}

/-- A look that comes to something leaves the cache as its effect says, and one that fails has none. -/
theorem effect_of_get (cache : Cache) (identity digest : String) :
    match cache.get identity digest with
    | .ok (_, after) => after = (cache.effect identity digest).apply cache
    | .error _ => cache.effect identity digest = .nothing := by
  rw [get, effect]
  cases cache.record? identity digest with
  | none => rfl
  | some record =>
      simp only
      cases AnnotatedUnit.ofRecord identity record with
      | ok unit => rfl
      | error error =>
          simp only
          cases isDamage error <;> rfl

theorem identity_of_get {unit : AnnotatedUnit} {after : Cache}
    (h : cache.get identity digest = .ok (some unit, after)) : unit.identity = identity := by
  rw [get] at h
  split at h
  · cases h
  · split at h
    · next record found hunit =>
        obtain rfl : found = unit := by
          cases h
          rfl
        simp only [AnnotatedUnit.ofRecord, Result.bind_eq_ok_iff, Result.pure_eq_ok_iff] at hunit
        obtain ⟨-, -, -, -, -, -, -, -, -, -, -, -, rfl⟩ := hunit
        rfl
    · split_ifs at h
      cases h

theorem map_fst_get_congr (h : cache.record? identity digest = other.record? identity digest) :
    (cache.get identity digest).map (·.1) = (other.get identity digest).map (·.1) := by
  rw [get, get, ← h]
  split
  · rfl
  · split
    · rfl
    · split <;> rfl

theorem effect_congr (h : cache.record? identity digest = other.record? identity digest) :
    cache.effect identity digest = other.effect identity digest := by
  rw [effect, effect, h]

theorem record?_of_lookup
    (h : Datum.lookup (.text identity) cache.entries = Datum.lookup (.text identity) other.entries) :
    cache.record? identity digest = other.record? identity digest := by
  rw [record?, record?, h]

/-- An effect takes out the entry of the unit that it drops, and no other. -/
theorem lookup_apply (effect : Effect) :
    Datum.lookup (.text identity) (effect.apply cache).entries =
      if effect.dropped? = some identity then none else Datum.lookup (.text identity) cache.entries := by
  cases effect with
  | nothing | hit | miss => rfl
  | drop other =>
      have hfilter := Datum.lookup_text_filter (fun key => !key.isText other) identity cache.entries
      refine hfilter.trans ?_
      by_cases hother : other = identity
      · subst hother
        have hgone : (!(Datum.text other).isText other) = false := by
          rw [Bool.not_eq_false', Datum.isText_iff]
        rw [hgone, Effect.dropped?, if_pos rfl, if_neg Bool.false_ne_true]
      · have hkept : (!(Datum.text identity).isText other) = true := by
          rw [Bool.not_eq_true', Datum.isText_eq_false_iff]
          exact fun heq => hother (Datum.text.inj heq).symm
        rw [if_pos hkept, Effect.dropped?, if_neg fun heq => hother (Option.some.inj heq)]

/-- An effect leaves the records of all units that it does not drop. -/
theorem record?_apply {effect : Effect} (h : effect.dropped? ≠ some identity) :
    (effect.apply cache).record? identity digest = cache.record? identity digest := by
  refine record?_of_lookup ?_
  rw [lookup_apply, if_neg h]

theorem dropped?_effect_ne {name : String} (h : identity ≠ name) :
    (cache.effect identity digest).dropped? ≠ some name := by
  rw [effect]
  split
  · exact nofun
  · split
    · exact nofun
    · split
      · exact fun heq => h (Option.some.inj heq)
      · exact nofun

end DocCompiler.Cache

namespace DocCompiler

open Annotation

namespace Cache

/-- An entry without the time that it was stored at. -/
def untimedEntry : Datum → Datum
  | .map fields => .map (fields.filter fun field => !field.1.isText "updated_at")
  | entry => entry

/-- A cache without the times of its entries. -/
def untimed (cache : Cache) : Cache :=
  { cache with entries := cache.entries.map fun entry => (entry.1, untimedEntry entry.2) }

theorem untimed_store (cache : Cache) (unit : AnnotatedUnit) (time other : String) :
    (cache.store unit time).untimed =
      { cache.untimed with
        entries := Datum.insertEntry (.text unit.identity) (untimedEntry (entryOf unit other)) cache.untimed.entries
        dirty := true } := by
  have hentry : untimedEntry (entryOf unit time) = untimedEntry (entryOf unit other) := rfl
  rw [untimed, untimed, store, ← hentry]
  simp only [← Datum.insertEntry_map]

theorem untimed_prune (cache : Cache) (identities : List String) :
    (cache.prune identities).untimed = cache.untimed.prune identities := by
  have hkept : (cache.untimed.entries.all fun entry => entry.1.isAmong identities) =
      cache.entries.all fun entry => entry.1.isAmong identities := by
    rw [untimed, List.all_map]
    rfl
  rw [prune, prune]
  simp only [hkept]
  split
  · rfl
  · rw [untimed, untimed, List.filter_map]
    rfl

/-- What is stored and dropped at the end of a run does not depend on the time of the run. -/
theorem untimed_updated (cache : Cache) (units : List AnnotatedUnit) (sources : List LocatedSource)
    (time other : String) :
    (Compile.updated cache units sources time).untimed = (Compile.updated cache units sources other).untimed := by
  have hstored (kept : List AnnotatedUnit) :
      (kept.foldl (fun cache unit => cache.store unit time) cache).untimed =
        (kept.foldl (fun cache unit => cache.store unit other) cache).untimed := by
    induction kept using List.reverseRecOn with
    | nil => rfl
    | append_singleton kept unit ih =>
        rw [List.foldl_append, List.foldl_append, List.foldl_cons, List.foldl_cons, List.foldl_nil, List.foldl_nil,
          untimed_store _ unit time other, untimed_store _ unit other other, ih]
  rw [Compile.updated, Compile.updated]
  simp only [untimed_prune, hstored]

end Cache

end DocCompiler
