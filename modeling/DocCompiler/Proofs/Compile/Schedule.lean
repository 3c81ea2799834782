import DocCompiler.Proofs.Cache.Look
import DocCompiler.Proofs.Compile.Keep
import DocCompiler.Proofs.Data.Sorted
import DocCompiler.Proofs.Project.Locate
import Mathlib.Data.List.Induction
import Mathlib.Data.List.Perm.Basic

/-!
The order in which sources are read does not matter. Readings of different sources share nothing but the
cache, and what they do to it can be done in any order; afterwards the readings are put in the order of the
identities of their units.
-/

namespace DocCompiler.Compile

open Annotation

section Reading

variable {reader : Reader} {cache other : Option Cache} {source : LocatedSource} {identity : String}

/-- The record that a cache, if there is one, has of a unit. -/
def recordIn (cache : Option Cache) (identity digest : String) : Option (Option Datum) :=
  cache.map (·.record? identity digest)

/-- The effect of reading a source on the cache. -/
def effectOf (reader : Reader) (cache : Option Cache) (source : LocatedSource) : Cache.Effect :=
  match reader.files.read source.path with
  | .error _ => .nothing
  | .ok content => cache.elim .nothing fun cache => cache.effect source.identity (fingerprint content)

theorem readThrough_snd (reader : Reader) (cache : Cache) (identity : String) (content : List UInt8) :
    (readThrough reader cache identity content).2 = (cache.effect identity (fingerprint content)).apply cache := by
  have heffect := cache.effect_of_get identity (fingerprint content)
  rw [readThrough]
  split at heffect
  · next found after hget =>
      rw [hget]
      cases found <;> exact heffect
  · next error hget =>
      rw [hget, heffect]
      rfl

theorem readThrough_fst_congr {reader : Reader} {cache other : Cache} {identity : String} {content : List UInt8}
    (h : (cache.get identity (fingerprint content)).map (·.1) = (other.get identity (fingerprint content)).map (·.1)) :
    (readThrough reader cache identity content).1 = (readThrough reader other identity content).1 := by
  rw [readThrough, readThrough]
  cases hcache : cache.get identity (fingerprint content) with
  | error error =>
      cases hother : other.get identity (fingerprint content) with
      | error error =>
          rw [hcache, hother] at h
          cases h
          rfl
      | ok result =>
          rw [hcache, hother] at h
          cases h
  | ok result =>
      cases hother : other.get identity (fingerprint content) with
      | error error =>
          rw [hcache, hother] at h
          cases h
      | ok result' =>
          obtain ⟨found, after⟩ := result
          obtain ⟨found', after'⟩ := result'
          rw [hcache, hother] at h
          obtain rfl : found = found' := Except.ok.inj h
          cases found <;> rfl

theorem readUnit_snd (reader : Reader) (cache : Option Cache) (source : LocatedSource) :
    (readUnit reader cache source).2 = cache.map (effectOf reader cache source).apply := by
  rw [readUnit, effectOf]
  cases reader.files.read source.path with
  | error error => cases cache <;> rfl
  | ok content =>
      cases cache with
      | none => rfl
      | some cache => exact congrArg some (readThrough_snd reader cache source.identity content)

/-- Two caches with the same records of a unit, or no cache both times. -/
theorem exists_of_recordIn_eq (h : ∀ digest, recordIn cache identity digest = recordIn other identity digest) :
    (cache = none ∧ other = none) ∨
      ∃ first second, cache = some first ∧ other = some second ∧
        ∀ digest, first.record? identity digest = second.record? identity digest := by
  cases cache with
  | none =>
      cases other with
      | none => exact .inl ⟨rfl, rfl⟩
      | some other => cases h ""
  | some cache =>
      cases other with
      | none => cases h ""
      | some other => exact .inr ⟨cache, other, rfl, rfl, fun digest => Option.some.inj (h digest)⟩

theorem readUnit_fst_congr (h : ∀ digest, recordIn cache source.identity digest = recordIn other source.identity digest) :
    (readUnit reader cache source).1 = (readUnit reader other source).1 := by
  obtain ⟨rfl, rfl⟩ | ⟨first, second, rfl, rfl, hrecord⟩ := exists_of_recordIn_eq h
  · rfl
  · rw [readUnit, readUnit]
    cases reader.files.read source.path with
    | error error => rfl
    | ok content => exact readThrough_fst_congr (Cache.map_fst_get_congr (hrecord (fingerprint content)))

theorem effectOf_congr (h : ∀ digest, recordIn cache source.identity digest = recordIn other source.identity digest) :
    effectOf reader cache source = effectOf reader other source := by
  obtain ⟨rfl, rfl⟩ | ⟨first, second, rfl, rfl, hrecord⟩ := exists_of_recordIn_eq h
  · rfl
  · rw [effectOf, effectOf]
    cases reader.files.read source.path with
    | error error => rfl
    | ok content => exact Cache.effect_congr (hrecord (fingerprint content))

/-- Reading a source leaves the records of all other units. -/
theorem recordIn_map_apply (h : source.identity ≠ identity) (digest : String) :
    recordIn (cache.map (effectOf reader other source).apply) identity digest = recordIn cache identity digest := by
  have hdropped : (effectOf reader other source).dropped? ≠ some identity := by
    rw [effectOf]
    cases reader.files.read source.path with
    | error error => exact nofun
    | ok content =>
        cases other with
        | none => exact nofun
        | some other => exact Cache.dropped?_effect_ne h
  rw [recordIn, recordIn, Option.map_map]
  congr 1
  funext cache
  exact Cache.record?_apply hdropped

theorem identity_readContent (reader : Reader) (identity digest : String) (content : List UInt8) :
    (readContent reader identity digest content).unit.identity = identity := by
  rw [readContent]
  split
  · rfl
  · simp only
    split
    · next unit hunit =>
        split at hunit
        · cases hunit
        · simp only [annotate, Result.bind_eq_ok_iff, Result.pure_eq_ok_iff] at hunit
          obtain ⟨-, -, rfl⟩ := hunit
          rfl
    · rfl

theorem identity_readUnit (reader : Reader) (cache : Option Cache) (source : LocatedSource) :
    (readUnit reader cache source).1.unit.identity = source.identity := by
  rw [readUnit]
  split
  · rfl
  · next content hcontent =>
      cases cache with
      | none => exact identity_readContent ..
      | some cache =>
          change (readThrough reader cache source.identity content).1.unit.identity = source.identity
          rw [readThrough]
          split
          · rfl
          · next unit after hget => exact Cache.identity_of_get hget
          · exact identity_readContent ..

end Reading

section Pool

variable {reader : Reader} {cache : Option Cache} {sources done : List LocatedSource} {pool next : Pool}

/-- What reading a source does to a cache that reads as another one. -/
def worked (reader : Reader) (first cache : Option Cache) (source : LocatedSource) : Option Cache :=
  cache.map (effectOf reader first source).apply

theorem recordIn_foldl_worked {identity : String} (h : ∀ source ∈ done, source.identity ≠ identity) (digest : String) :
    recordIn (done.foldl (worked reader cache) cache) identity digest = recordIn cache identity digest := by
  induction done using List.reverseRecOn with
  | nil => rfl
  | append_singleton done source ih =>
      rw [List.foldl_append, List.foldl_cons, List.foldl_nil, worked, recordIn_map_apply (h source (by simp)),
        ih fun other hother => h other (by simp [hother])]

/-- The sources that are done with, in the order in which they were read: each reading is what it would be
had it been the first one, and the cache has seen all of their effects. -/
structure Pool.Progress (reader : Reader) (cache : Option Cache) (sources done : List LocatedSource) (pool : Pool) :
    Prop where
  sources : (done ++ pool.waiting).Perm sources
  readings : (pool.ready ++ pool.fetched).Perm (done.map fun source => (readUnit reader cache source).1)
  cache : pool.cache = done.foldl (worked reader cache) cache

theorem Pool.Progress.step (h : pool.Progress reader cache sources done)
    (hdistinct : (sources.map (·.identity)).Nodup) (hstep : Pool.Step reader pool next) :
    ∃ done, next.Progress reader cache sources done := by
  cases hstep with
  | read before after source ready fetched current =>
      have hperm : (done ++ [source] ++ (before ++ after)).Perm sources := by
        refine List.Perm.trans ?_ h.sources
        rw [List.append_assoc]
        change (done ++ source :: (before ++ after)).Perm (done ++ (before ++ source :: after))
        exact List.perm_middle.symm.append_left done
      have hothers : ∀ other ∈ done, other.identity ≠ source.identity := by
        intro other hother heq
        have hnodup := (hperm.map (·.identity)).nodup_iff.mpr hdistinct
        rw [List.append_assoc, List.map_append, List.nodup_append] at hnodup
        exact hnodup.2.2 other.identity (List.mem_map_of_mem hother) source.identity (by simp) heq
      -- The readings before were of other units, so the record of this one is still the first one.
      have hrecord (digest : String) :
          recordIn current source.identity digest = recordIn cache source.identity digest := by
        rw [show current = _ from h.cache]
        exact recordIn_foldl_worked hothers digest
      refine ⟨done ++ [source], hperm, ?_, ?_⟩
      · rw [List.map_append, readUnit_fst_congr hrecord]
        exact (h.readings.cons _).trans (List.perm_append_singleton _ _).symm
      · rw [List.foldl_append, ← show current = _ from h.cache]
        change (readUnit reader current source).2 = worked reader cache current source
        rw [readUnit_snd, effectOf_congr hrecord, worked]
  | fetch waiting before after reading fetched current =>
      refine ⟨done, h.sources, ?_, h.cache⟩
      refine List.Perm.trans ?_ h.readings
      change ((before ++ after) ++ (fetched ++ [reading])).Perm ((before ++ reading :: after) ++ fetched)
      rw [← List.append_assoc]
      refine (List.perm_append_singleton _ _).trans ?_
      exact List.perm_middle.symm.append_right fetched

theorem Pool.Progress.steps (h : pool.Progress reader cache sources done)
    (hdistinct : (sources.map (·.identity)).Nodup) (hsteps : Pool.Steps reader pool next) :
    ∃ done, next.Progress reader cache sources done := by
  induction hsteps generalizing done with
  | refl => exact ⟨done, h⟩
  | head hstep _ ih =>
      obtain ⟨more, hmore⟩ := h.step hdistinct hstep
      exact ih hmore

/-- When all is done, each source has the reading that it would have had as the first one. -/
theorem Pool.Steps.outcome {readings : List UnitReading} {after : Option Cache}
    (hdistinct : (sources.map (·.identity)).Nodup)
    (h : Pool.Steps reader { waiting := sources, cache } ⟨[], [], readings, after⟩) :
    readings.Perm (sources.map fun source => (readUnit reader cache source).1) ∧
      after = sources.foldl (worked reader cache) cache := by
  have hfirst : Pool.Progress reader cache sources [] { waiting := sources, cache } :=
    ⟨List.Perm.refl _, List.Perm.refl _, rfl⟩
  obtain ⟨done, hdone⟩ := hfirst.steps hdistinct h
  have hperm : done.Perm sources := by simpa using hdone.sources
  refine ⟨hdone.readings.trans (hperm.map _), hdone.cache.trans ?_⟩
  -- The sources were read in some order, and what two of them do to the cache commutes.
  refine hperm.foldl_eq' (fun first _ second _ current => ?_) cache
  rw [worked, worked, worked, worked, Option.map_map, Option.map_map]
  congr 1
  funext current
  exact Cache.Effect.apply_comm _ _ current

/-- All orders of reading sources with distinct identities come to the same. -/
theorem Pool.Steps.unique {readings others : List UnitReading} {after last : Option Cache}
    (hdistinct : (sources.map (·.identity)).Nodup)
    (h : Pool.Steps reader { waiting := sources, cache } ⟨[], [], readings, after⟩)
    (h' : Pool.Steps reader { waiting := sources, cache } ⟨[], [], others, last⟩) :
    arrange readings = arrange others ∧ after = last := by
  obtain ⟨hreadings, hafter⟩ := h.outcome hdistinct
  obtain ⟨hothers, hlast⟩ := h'.outcome hdistinct
  let identityOf (reading : UnitReading) : String := reading.unit.identity
  have hsame : (sources.map fun source => (readUnit reader cache source).1).map identityOf =
      sources.map (·.identity) := by
    rw [List.map_map]
    exact List.map_congr_left fun source _ => identity_readUnit reader cache source
  have hnodup : (others.map identityOf).Nodup := by
    rw [(hothers.map identityOf).nodup_iff, hsame]
    exact hdistinct
  have harrange : readings.mergeSort (Keyed.le identityOf) = others.mergeSort (Keyed.le identityOf) :=
    Keyed.mergeSort_eq_of_perm (hreadings.trans hothers.symm) hnodup
  exact ⟨harrange, hafter.trans hlast.symm⟩

end Pool

section Located

theorem nodup_of_locateSources {root : Path} {settings : SourceSettings} {supported : String → Bool}
    {tree : FileTree} {located : Located} (h : locateSources root settings supported tree = .ok located) :
    (located.sources.map (·.identity)).Nodup := by
  obtain ⟨rules, looked, -, -, -, rfl⟩ := Locate.locateSources_eq_ok_iff.mp h
  exact Locate.nodup_sortSources _

/-- The sources of a run have distinct identities. -/
theorem gives_plan (request : Request) :
    Gives (fun plan => (plan.located.sources.map (·.identity)).Nodup) (plan request) := by
  have hlocate (settings : Settings) (detectors : List Detector) :
      Gives (fun located => (located.sources.map (·.identity)).Nodup) (locate settings detectors) := by
    refine gives_bind fun scene => ?_
    split
    · next hlocated =>
        exact gives_bind fun _ => gives_bind fun _ => gives_pure (nodup_of_locateSources hlocated)
    · split
      · exact gives_bind fun _ => gives_throw _
      · exact gives_throw _
  refine gives_ite (gives_throw_bind _ _) (gives_ite (gives_throw_bind _ _) ?_)
  refine gives_bind fun scene => gives_bind fun settings => gives_bind fun _ => gives_bind fun detectors => ?_
  exact (hlocate settings detectors).bind fun located hlocated => gives_pure hlocated

end Located

section Run

/-- Sources with distinct identities are read alike by all workers. -/
theorem readAll_eq (workers others : Workers) (reader : Reader) (cache : Option Cache) {sources : List LocatedSource}
    (hdistinct : (sources.map (·.identity)).Nodup) :
    readAll workers reader cache sources = readAll others reader cache sources := by
  obtain ⟨hreadings, hcache⟩ :=
    Pool.Steps.unique hdistinct (workers.steps reader cache sources) (others.steps reader cache sources)
  rw [readAll, readAll]
  simp only [hreadings, hcache]

theorem readCached_eq (request : Request) (workers : Workers) (settings : Settings) (detectors : List Detector)
    {sources : List LocatedSource} (hdistinct : (sources.map (·.identity)).Nodup) :
    readCached { request with workers } settings detectors sources = readCached request settings detectors sources := by
  simp only [readCached, readAll_eq workers request.workers _ _ hdistinct]
  rfl

theorem compile_eq (request : Request) (workers : Workers) :
    compile { request with workers } = compile request := by
  funext scene
  change (plan request >>= fun plan =>
    readCached { request with workers } plan.settings plan.detectors plan.located.sources >>=
      fun readings => conclude request plan readings).run scene = (compile request).run scene
  rw [compile]
  cases hplan : (plan request).run scene with
  | ok plan after =>
      rw [run_bind_of_ok hplan, run_bind_of_ok hplan,
        readCached_eq request workers plan.settings plan.detectors (gives_plan request scene plan after hplan)]
  | error error after => rw [run_bind_of_error hplan, run_bind_of_error hplan]

/-- The order in which sources are read is not seen. All orders of reading sources with distinct identities
come to the same readings in the order of identities, and leave the same cache; sources are located with
distinct identities; a run comes to the same with all workers; and what it leaves in the cache is the same at
all times, but for the time. -/
theorem schedule_is_invisible :
    (∀ (reader : Reader) (cache : Option Cache) (sources : List LocatedSource),
      (sources.map (·.identity)).Nodup →
        ∀ (readings others : List UnitReading) (after last : Option Cache),
          Pool.Steps reader { waiting := sources, cache } ⟨[], [], readings, after⟩ →
          Pool.Steps reader { waiting := sources, cache } ⟨[], [], others, last⟩ →
            arrange readings = arrange others ∧ after = last) ∧
    (∀ (root : Path) (settings : SourceSettings) (supported : String → Bool) (tree : FileTree) (located : Located),
      locateSources root settings supported tree = .ok located → (located.sources.map (·.identity)).Nodup) ∧
    (∀ (request : Request) (workers : Workers) (files : FileTree),
      run { request with workers } files = run request files) ∧
    ∀ (cache : Cache) (units : List AnnotatedUnit) (sources : List LocatedSource) (time other : String),
      (updated cache units sources time).untimed = (updated cache units sources other).untimed := by
  refine ⟨fun reader cache sources hdistinct readings others after last h h' => h.unique hdistinct h',
    fun _ _ _ _ _ => nodup_of_locateSources, ?_, Cache.untimed_updated⟩
  intro request workers files
  rw [run, run, compile_eq]

/-- Two sources that are read in turn, or the other way round. -/
theorem schedule_is_invisible_two :
    let reader : Reader := { files := .empty, detectors := [], constants := [] }
    let first : LocatedSource := ⟨"a.php", ⟨"/", ["a.php"]⟩⟩
    let second : LocatedSource := ⟨"b.php", ⟨"/", ["b.php"]⟩⟩
    ([first, second].map (·.identity)).Nodup ∧
      arrange [(readUnit reader none second).1, (readUnit reader none first).1] =
        arrange [(readUnit reader none first).1, (readUnit reader none second).1] := by
  intro reader first second
  have hdistinct : ([first, second].map (·.identity)).Nodup := by decide
  refine ⟨hdistinct, ?_⟩
  have hback : Pool.Steps reader { waiting := [first, second], cache := none }
      ⟨[], [], [(readUnit reader none second).1, (readUnit reader none first).1], none⟩ :=
    .head (.read [first] [] second [] [] none)
      (.head (.read [] [] first _ [] none)
        (.head (.fetch [] [_] [] _ [] none) (.head (.fetch [] [] [] _ _ none) (.refl _))))
  exact (schedule_is_invisible.1 reader none [first, second] hdistinct _ _ _ _ hback
    (Pool.steps_readUnits reader [first, second] [] none)).1

end Run

end DocCompiler.Compile
