import DocCompiler.Build.Context
import DocCompiler.Proofs.Data.Result

/-!
How steps of building a document end. A step that yields a value is taken apart into the steps it
consists of; a step that reads leaves a context as it is, but for warnings.
-/

namespace DocCompiler.Build

variable {α β : Type}

/-- How a step ends when it is taken in a context: with a value or a fault, in a context that may have
changed. -/
def Ends (step : Step α) (context : Context) (result : Except Fault α) (after : Context) : Prop :=
  step.run.run context = .ok (result, after)

/-- A step ends with a value. -/
def Yields (step : Step α) (context : Context) (value : α) (after : Context) : Prop :=
  Ends step context (.ok value) after

theorem run_bind (step : Step α) (next : α → Step β) (context : Context) :
    (step >>= next).run.run context =
      (match step.run.run context with
      | .ok (.ok value, between) => (next value).run.run between
      | .ok (.error fault, between) => .ok (.error fault, between)
      | .error error => .error error) := by
  simp only [ExceptT.run_bind, StateT.run_bind]
  change Except.bind _ _ = _
  rcases step.run.run context with _ | ⟨_ | _, _⟩ <;> rfl

theorem ends_bind_iff {step : Step α} {next : α → Step β} {context after : Context}
    {result : Except Fault β} :
    Ends (step >>= next) context result after ↔
      (∃ value between, Yields step context value between ∧ Ends (next value) between result after) ∨
        ∃ fault, result = .error fault ∧ Ends step context (.error fault) after := by
  simp only [Yields, Ends, run_bind]
  rcases step.run.run context with _ | ⟨_ | _, _⟩
  · simp
  · simp only [Except.ok.injEq, Prod.mk.injEq, reduceCtorEq, false_and, exists_const, exists_false,
      Except.error.injEq, false_or]
    constructor
    · rintro ⟨rfl, rfl⟩
      exact ⟨_, rfl, rfl, rfl⟩
    · rintro ⟨_, rfl, rfl, rfl⟩
      exact ⟨rfl, rfl⟩
  · simp only [Except.ok.injEq, Prod.mk.injEq, reduceCtorEq, false_and, and_false, exists_const,
      or_false]
    constructor
    · intro h
      exact ⟨_, _, ⟨rfl, rfl⟩, h⟩
    · rintro ⟨_, _, ⟨rfl, rfl⟩, h⟩
      exact h

theorem ends_pure_iff {value : α} {context after : Context} {result : Except Fault α} :
    Ends (pure value : Step α) context result after ↔ result = .ok value ∧ after = context := by
  constructor
  · intro h
    cases h
    exact ⟨rfl, rfl⟩
  · rintro ⟨rfl, rfl⟩
    rfl

theorem ends_throw_iff {fault : Fault} {context after : Context} {result : Except Fault α} :
    Ends (throw fault : Step α) context result after ↔ result = .error fault ∧ after = context := by
  constructor
  · intro h
    cases h
    exact ⟨rfl, rfl⟩
  · rintro ⟨rfl, rfl⟩
    rfl

theorem ends_refuse_iff {view : View} {cause : Cause} {context after : Context}
    {result : Except Fault α} :
    Ends (refuse view cause : Step α) context result after ↔
      result = .error { cause, place := view.place } ∧ after = context :=
  ends_throw_iff

theorem not_ends_giveUp {error : ShapeError} {context after : Context} {result : Except Fault α} :
    ¬ Ends (giveUp error : Step α) context result after := by
  intro h
  cases h

theorem ends_modify_iff {change : Context → Context} {context after : Context}
    {result : Except Fault Unit} :
    Ends (modify change : Step PUnit) context result after ↔
      result = .ok () ∧ after = change context := by
  constructor
  · intro h
    cases h
    exact ⟨rfl, rfl⟩
  · rintro ⟨rfl, rfl⟩
    rfl

theorem ends_get_iff {context after : Context} {result : Except Fault Context} :
    Ends (get : Step Context) context result after ↔ result = .ok context ∧ after = context := by
  constructor
  · intro h
    cases h
    exact ⟨rfl, rfl⟩
  · rintro ⟨rfl, rfl⟩
    rfl

theorem ends_get_bind_iff {next : Context → Step α} {context after : Context}
    {result : Except Fault α} :
    Ends (get >>= next) context result after ↔ Ends (next context) context result after := by
  rw [ends_bind_iff]
  constructor
  · rintro (⟨value, between, hget, h⟩ | ⟨fault, -, hget⟩)
    · obtain ⟨hvalue, rfl⟩ := ends_get_iff.mp hget
      exact Except.ok.inj hvalue ▸ h
    · cases (ends_get_iff.mp hget).1
  · intro h
    exact .inl ⟨context, context, ends_get_iff.mpr ⟨rfl, rfl⟩, h⟩

section Yielding

variable {step : Step α} {next : α → Step β} {value result : α} {context after : Context}

@[simp] theorem yields_pure_iff :
    Yields (pure value : Step α) context result after ↔ result = value ∧ after = context := by
  simp [Yields, ends_pure_iff]

@[simp] theorem yields_bind_iff {result : β} :
    Yields (step >>= next) context result after ↔
      ∃ value between, Yields step context value between ∧
        Yields (next value) between result after := by
  simp [Yields, ends_bind_iff]

@[simp] theorem yields_map_iff {f : α → β} {result : β} :
    Yields (f <$> step) context result after ↔
      ∃ value, Yields step context value after ∧ result = f value := by
  rw [map_eq_pure_bind, yields_bind_iff]
  simp only [yields_pure_iff]
  constructor
  · rintro ⟨value, between, h, rfl, rfl⟩
    exact ⟨value, h, rfl⟩
  · rintro ⟨value, h, rfl⟩
    exact ⟨value, after, h, rfl, rfl⟩

@[simp] theorem not_yields_throw {fault : Fault} :
    ¬ Yields (throw fault : Step α) context result after := by
  simp [Yields, ends_throw_iff]

@[simp] theorem not_yields_refuse {view : View} {cause : Cause} :
    ¬ Yields (refuse view cause : Step α) context result after := by
  simp [Yields, ends_refuse_iff]

@[simp] theorem not_yields_giveUp {error : ShapeError} :
    ¬ Yields (giveUp error : Step α) context result after :=
  not_ends_giveUp

@[simp] theorem yields_look_iff {found : Except Stop α} :
    Yields (look found) context result after ↔ found = .ok result ∧ after = context := by
  rcases found with (fault | error) | found
  · simp [look]
  · simp [look]
  · simp [look, eq_comm]

@[simp] theorem yields_get_iff {result : Context} :
    Yields (get : Step Context) context result after ↔ result = context ∧ after = context := by
  simp [Yields, ends_get_iff]

theorem yields_get_bind_iff {next : Context → Step α} :
    Yields (get >>= next) context result after ↔ Yields (next context) context result after :=
  ends_get_bind_iff

@[simp] theorem yields_modify_iff {change : Context → Context} {result : Unit} :
    Yields (modify change : Step PUnit) context result after ↔ after = change context := by
  simp [Yields, ends_modify_iff]

@[simp] theorem yields_ite_iff {p : Prop} [Decidable p] {other : Step α} :
    Yields (if p then step else other) context result after ↔
      (p ∧ Yields step context result after) ∨ (¬ p ∧ Yields other context result after) := by
  by_cases h : p <;> simp [h]

theorem yields_nil_mapM_iff {f : α → Step β} {results : List β} :
    Yields (([] : List α).mapM f) context results after ↔ results = [] ∧ after = context := by
  simp

theorem yields_cons_mapM_iff {f : α → Step β} {item : α} {rest : List α} {results : List β} :
    Yields ((item :: rest).mapM f) context results after ↔
      ∃ first between others, Yields (f item) context first between ∧
        Yields (rest.mapM f) between others after ∧ results = first :: others := by
  simp only [List.mapM_cons, yields_bind_iff, yields_pure_iff]
  constructor
  · rintro ⟨first, between, h, others, _, hs, rfl, rfl⟩
    exact ⟨first, between, others, h, hs, rfl⟩
  · rintro ⟨first, between, others, h, hs, rfl⟩
    exact ⟨first, between, h, others, after, hs, rfl, rfl⟩

theorem exists_of_yields_mapM {f : α → Step β} {items : List α} {results : List β}
    (h : Yields (items.mapM f) context results after) {found : β} (hfound : found ∈ results) :
    ∃ item ∈ items, ∃ before between, Yields (f item) before found between := by
  induction items generalizing results context with
  | nil =>
      obtain ⟨rfl, -⟩ := yields_nil_mapM_iff.mp h
      simp at hfound
  | cons item rest ih =>
      obtain ⟨first, between, others, hfirst, hothers, rfl⟩ := yields_cons_mapM_iff.mp h
      rcases List.mem_cons.mp hfound with rfl | hlater
      · exact ⟨item, by simp, context, between, hfirst⟩
      · obtain ⟨other, hother, hyields⟩ := ih hothers hlater
        exact ⟨other, by simp [hother], hyields⟩

@[simp] theorem yields_none_mapM_iff {f : α → Step β} {found : Option β} :
    Yields ((none : Option α).mapM f) context found after ↔ found = none ∧ after = context :=
  yields_pure_iff

@[simp] theorem yields_some_mapM_iff {f : α → Step β} {item : α} {found : Option β} :
    Yields ((some item).mapM f) context found after ↔
      ∃ value, Yields (f item) context value after ∧ found = some value :=
  yields_map_iff

end Yielding

/-- A context with more diagnostics. -/
def Context.warn (context : Context) (warnings : List Diagnostic) : Context :=
  { context with diagnostics := context.diagnostics ++ warnings }

@[simp] theorem Context.warn_model (context : Context) (warnings : List Diagnostic) :
    (context.warn warnings).model = context.model :=
  rfl

@[simp] theorem Context.warn_origins (context : Context) (warnings : List Diagnostic) :
    (context.warn warnings).origins = context.origins :=
  rfl

@[simp] theorem Context.warn_typeSchemas (context : Context) (warnings : List Diagnostic) :
    (context.warn warnings).typeSchemas = context.typeSchemas :=
  rfl

@[simp] theorem Context.warn_nil (context : Context) : context.warn [] = context := by
  simp [Context.warn]

@[simp] theorem Context.warn_warn (context : Context) (first second : List Diagnostic) :
    (context.warn first).warn second = context.warn (first ++ second) := by
  simp [Context.warn]

theorem yields_enter_iff {unit : String} {node : Annotation.Node} {view : View}
    {context after : Context} :
    Yields (enter unit node) context view after ↔
      view = View.of unit node ∧
        ∃ warnings, (View.of unit node).warnings = .ok warnings ∧ after = context.warn warnings := by
  simp only [enter, yields_bind_iff, yields_look_iff, yields_modify_iff, yields_pure_iff]
  constructor
  · rintro ⟨warnings, _, ⟨hwarnings, rfl⟩, _, _, rfl, rfl, rfl⟩
    exact ⟨rfl, warnings, hwarnings, rfl⟩
  · rintro ⟨rfl, warnings, hwarnings, rfl⟩
    exact ⟨warnings, context, ⟨hwarnings, rfl⟩, (), _, rfl, rfl, rfl⟩

/-- Diagnostics none of which is an error. -/
def OnlyWarnings (diagnostics : List Diagnostic) : Prop :=
  ∀ diagnostic ∈ diagnostics, diagnostic.severity ≠ .error

theorem onlyWarnings_nil : OnlyWarnings [] := by
  simp [OnlyWarnings]

theorem OnlyWarnings.append {first second : List Diagnostic} (h : OnlyWarnings first)
    (hsecond : OnlyWarnings second) : OnlyWarnings (first ++ second) :=
  List.forall_mem_append.mpr ⟨h, hsecond⟩

/-- What is reported of attributes that a tag does not accept are warnings. -/
theorem onlyWarnings_of_warnings {view : View} {warnings : List Diagnostic}
    (h : view.warnings = .ok warnings) : OnlyWarnings warnings := by
  obtain ⟨found, hfound, hwarnings⟩ := Result.bind_eq_ok_iff.mp h
  obtain rfl := Result.pure_eq_ok_iff.mp hwarnings
  intro warning hwarning
  obtain ⟨_, hmem, rfl⟩ := List.mem_filterMap.mp hwarning
  obtain ⟨⟨name, _⟩, -, hreported⟩ := Result.mem_of_mapM_eq_ok hfound hmem
  obtain ⟨accepted, -, hreported⟩ := Result.bind_eq_ok_iff.mp hreported
  cases accepted with
  | true => cases hreported
  | false =>
      obtain rfl := Option.some.inj (Result.pure_eq_ok_iff.mp hreported)
      simp [Diagnostic.warning]

/-- A step that only looks: how it ends does not hang on the context, and all it does is warn. -/
def Reads (step : Step α) : Prop :=
  ∃ outcome : Except ShapeError (Except Fault α × List Diagnostic),
    (∀ found, outcome = .ok found → OnlyWarnings found.2) ∧
      ∀ context, step.run.run context =
        outcome.map fun (result, warnings) => (result, context.warn warnings)

namespace Reads

theorem of_outcome {step : Step α} (result : Except Fault α) {warnings : List Diagnostic}
    (hwarnings : OnlyWarnings warnings)
    (h : ∀ context, step.run.run context = .ok (result, context.warn warnings)) : Reads step := by
  refine ⟨.ok (result, warnings), fun found hfound => ?_, h⟩
  obtain rfl := Except.ok.inj hfound
  exact hwarnings

theorem of_error {step : Step α} (error : ShapeError)
    (h : ∀ context, step.run.run context = .error error) : Reads step := by
  refine ⟨.error error, fun found hfound => ?_, h⟩
  cases hfound

theorem pure (value : α) : Reads (Pure.pure value : Step α) :=
  of_outcome (.ok value) onlyWarnings_nil fun context => by
    rw [Context.warn_nil]
    rfl

theorem throw (fault : Fault) : Reads (MonadExcept.throw fault : Step α) :=
  of_outcome (.error fault) onlyWarnings_nil fun context => by
    rw [Context.warn_nil]
    rfl

theorem refuse (view : View) (cause : Cause) : Reads (Build.refuse view cause : Step α) :=
  throw _

theorem giveUp (error : ShapeError) : Reads (Build.giveUp error : Step α) :=
  of_error error fun _ => rfl

theorem look (found : Except Stop α) : Reads (Build.look found) := by
  rcases found with (fault | error) | value
  · exact throw fault
  · exact giveUp error
  · exact pure value

theorem bind {step : Step α} {next : α → Step β} (h : Reads step)
    (hnext : ∀ value, Reads (next value)) : Reads (step >>= next) := by
  obtain ⟨outcome, hwarnings, h⟩ := h
  rcases outcome with error | ⟨fault | value, warnings⟩
  · refine of_error error fun context => ?_
    rw [run_bind, h]
    rfl
  · refine of_outcome (.error fault) (hwarnings _ rfl) fun context => ?_
    rw [run_bind, h]
    rfl
  · obtain ⟨later, hmore, hlater⟩ := hnext value
    rcases later with error | ⟨result, more⟩
    · refine of_error error fun context => ?_
      rw [run_bind, h]
      exact hlater _
    · refine of_outcome result ((hwarnings _ rfl).append (hmore _ rfl)) fun context => ?_
      rw [run_bind, h]
      simp only [Except.map, hlater, Context.warn_warn]

theorem look_bind {found : Except Stop α} {next : α → Step β}
    (h : ∀ value, found = .ok value → Reads (next value)) : Reads (Build.look found >>= next) := by
  rcases found with (fault | error) | value
  · refine of_outcome (.error fault) onlyWarnings_nil fun context => ?_
    rw [Context.warn_nil]
    rfl
  · exact of_error error fun _ => rfl
  · exact h value rfl

theorem map {step : Step α} {f : α → β} (h : Reads step) : Reads (f <$> step) := by
  rw [map_eq_pure_bind]
  exact h.bind fun value => pure (f value)

theorem ite {p : Prop} [Decidable p] {step other : Step α} (h : Reads step) (hother : Reads other) :
    Reads (if p then step else other) := by
  split
  · exact h
  · exact hother

theorem enter (unit : String) (node : Annotation.Node) : Reads (Build.enter unit node) := by
  refine look_bind fun warnings hwarnings => ?_
  exact of_outcome (.ok (View.of unit node)) (onlyWarnings_of_warnings hwarnings) fun _ => rfl

theorem mapM {f : α → Step β} {items : List α} (h : ∀ item ∈ items, Reads (f item)) :
    Reads (items.mapM f) := by
  induction items with
  | nil => simpa using pure []
  | cons item rest ih =>
      rw [List.mapM_cons]
      refine (h item (by simp)).bind fun first => bind (ih fun other hother => ?_) fun _ => pure _
      exact h other (by simp [hother])

theorem optionMapM {f : α → Step β} {found : Option α} (h : ∀ item ∈ found, Reads (f item)) :
    Reads (found.mapM f) := by
  cases found with
  | none => exact pure none
  | some item => exact (h item rfl).map

/-- What a reading step does in one context it does in all. -/
theorem transfer {step : Step α} (h : Reads step) {context after : Context} {result : Except Fault α}
    (hends : Ends step context result after) :
    ∃ warnings, after = context.warn warnings ∧
      ∀ other, Ends step other result (other.warn warnings) := by
  obtain ⟨outcome, -, h⟩ := h
  rcases outcome with error | ⟨found, warnings⟩
  · rw [Ends, h] at hends
    cases hends
  · have hfound : found = result ∧ context.warn warnings = after := by
      simpa [Ends, h, Except.map] using hends
    obtain ⟨rfl, rfl⟩ := hfound
    exact ⟨warnings, rfl, fun other => h other⟩

/-- All that a reading step does is warn. -/
theorem warns {step : Step α} (h : Reads step) {context after : Context} {result : Except Fault α}
    (hends : Ends step context result after) :
    ∃ warnings, OnlyWarnings warnings ∧ after = context.warn warnings := by
  obtain ⟨outcome, hwarnings, h⟩ := h
  rcases outcome with error | ⟨found, warnings⟩
  · rw [Ends, h] at hends
    cases hends
  · have hfound : found = result ∧ context.warn warnings = after := by
      simpa [Ends, h, Except.map] using hends
    exact ⟨warnings, hwarnings _ rfl, hfound.2.symm⟩

end Reads

/-- Whatever a step ends with, a property of contexts is kept. -/
def Keeps (inv : Context → Prop) (step : Step α) : Prop :=
  ∀ context result after, inv context → Ends step context result after → inv after

namespace Keeps

variable {inv : Context → Prop}

theorem pure (value : α) : Keeps inv (Pure.pure value : Step α) := by
  intro context result after hinv h
  obtain ⟨-, rfl⟩ := ends_pure_iff.mp h
  exact hinv

theorem throw (fault : Fault) : Keeps inv (MonadExcept.throw fault : Step α) := by
  intro context result after hinv h
  obtain ⟨-, rfl⟩ := ends_throw_iff.mp h
  exact hinv

theorem refuse (view : View) (cause : Cause) : Keeps inv (Build.refuse view cause : Step α) :=
  throw _

theorem giveUp (error : ShapeError) : Keeps inv (Build.giveUp error : Step α) :=
  fun _ _ _ _ h => absurd h not_ends_giveUp

theorem look (found : Except Stop α) : Keeps inv (Build.look found) := by
  rcases found with (fault | error) | value
  · exact throw fault
  · exact giveUp error
  · exact pure value

theorem get : Keeps inv (MonadState.get : Step Context) := by
  intro context result after hinv h
  obtain ⟨-, rfl⟩ := ends_get_iff.mp h
  exact hinv

theorem alter {change : Context → Context} (h : ∀ context, inv context → inv (change context)) :
    Keeps inv (modify change : Step PUnit) := by
  intro context result after hinv hends
  obtain ⟨-, rfl⟩ := ends_modify_iff.mp hends
  exact h context hinv

/-- The rest of a step is only looked at for values that the first part yields. -/
theorem bind {step : Step α} {next : α → Step β} (h : Keeps inv step)
    (hnext : ∀ context value after, inv context → Yields step context value after →
      Keeps inv (next value)) : Keeps inv (step >>= next) := by
  intro context result after hinv hends
  rcases ends_bind_iff.mp hends with ⟨value, between, hstep, hrest⟩ | ⟨fault, rfl, hstep⟩
  · exact hnext context value between hinv hstep _ _ _ (h _ _ _ hinv hstep) hrest
  · exact h _ _ _ hinv hstep

/-- Nothing comes behind a refusal. -/
theorem refuse_bind {view : View} {cause : Cause} {next : α → Step β} :
    Keeps inv (Build.refuse view cause >>= next) :=
  bind (refuse view cause) fun _ _ _ _ h => absurd h not_yields_refuse

theorem ite {p : Prop} [Decidable p] {step other : Step α} (h : p → Keeps inv step)
    (hother : ¬ p → Keeps inv other) : Keeps inv (if p then step else other) := by
  split
  · exact h ‹_›
  · exact hother ‹_›

theorem forM {items : List α} {f : α → Step PUnit} (h : ∀ item ∈ items, Keeps inv (f item)) :
    Keeps inv (items.forM f) := by
  induction items with
  | nil => exact pure _
  | cons item rest ih =>
      refine bind (h item (by simp)) fun _ _ _ _ _ => ih fun other hother => ?_
      exact h other (by simp [hother])

end Keeps

theorem Reads.keeps {step : Step α} (h : Reads step) {inv : Context → Prop}
    (hwarn : ∀ context warnings, inv context → inv (context.warn warnings)) : Keeps inv step := by
  intro context result after hinv hends
  obtain ⟨warnings, rfl, -⟩ := h.transfer hends
  exact hwarn context warnings hinv

namespace Keeps

variable {inv : Context → Prop}

theorem get_bind {next : Context → Step α} (h : ∀ context, inv context → Keeps inv (next context)) :
    Keeps inv (MonadState.get >>= next) := by
  intro context result after hinv hends
  exact h context hinv _ _ _ hinv (ends_get_bind_iff.mp hends)

theorem look_bind {found : Except Stop α} {next : α → Step β}
    (h : ∀ value, found = .ok value → Keeps inv (next value)) :
    Keeps inv (Build.look found >>= next) :=
  (look found).bind fun _ _ _ _ hyields => h _ (yields_look_iff.mp hyields).1

theorem of_reads_bind {step : Step α} (hstep : Reads step) {next : α → Step β}
    (hwarn : ∀ context warnings, inv context → inv (context.warn warnings))
    (h : ∀ context value after, Yields step context value after → Keeps inv (next value)) :
    Keeps inv (step >>= next) :=
  (hstep.keeps hwarn).bind fun _ _ _ _ hyields => h _ _ _ hyields

theorem enter_bind {unit : String} {node : Annotation.Node} {next : View → Step β}
    (hwarn : ∀ context warnings, inv context → inv (context.warn warnings))
    (h : Keeps inv (next (View.of unit node))) : Keeps inv (Build.enter unit node >>= next) :=
  of_reads_bind (Reads.enter unit node) hwarn fun _ _ _ hyields =>
    (yields_enter_iff.mp hyields).1 ▸ h

end Keeps

theorem guarded_eq_ok_iff {step : Step Unit} {context after : Context} :
    guarded step context = .ok after ↔
      Yields step context () after ∨ ∃ fault between, Ends step context (.error fault) between ∧
        after = between.warn [fault.diagnostic] := by
  simp only [guarded, Result.bind_eq_ok_iff, Yields, Ends]
  constructor
  · rintro ⟨⟨result, between⟩, hrun, hends⟩
    rcases result with fault | value
    · exact .inr ⟨fault, between, hrun, (Result.pure_eq_ok_iff.mp hends).symm⟩
    · obtain rfl := Result.pure_eq_ok_iff.mp hends
      exact .inl hrun
  · rintro (hrun | ⟨fault, between, hrun, rfl⟩)
    · exact ⟨_, hrun, rfl⟩
    · exact ⟨_, hrun, rfl⟩

theorem yields_attempt_iff {step : Step Unit} {context after : Context} {value : Unit} :
    Yields (attempt step) context value after ↔ guarded step context = .ok after := by
  unfold attempt
  rw [yields_get_bind_iff]
  cases guarded step context with
  | error error => simp
  | ok found =>
      rw [Except.ok.injEq, eq_comm]
      exact yields_modify_iff

theorem Keeps.of_guarded {inv : Context → Prop} {step : Step Unit} (h : Keeps inv step)
    (hwarn : ∀ context warnings, inv context → inv (context.warn warnings))
    {context after : Context} (hinv : inv context) (hends : guarded step context = .ok after) :
    inv after := by
  rcases guarded_eq_ok_iff.mp hends with hyields | ⟨fault, between, hfault, rfl⟩
  · exact h context _ after hinv hyields
  · exact hwarn between _ (h context _ between hinv hfault)

theorem Keeps.attempt {inv : Context → Prop} {step : Step Unit} (h : Keeps inv step)
    (hwarn : ∀ context warnings, inv context → inv (context.warn warnings)) :
    Keeps inv (Build.attempt step) := by
  intro context result after hinv hends
  have hrest := ends_get_bind_iff.mp hends
  split at hrest
  · rename_i found hfound
    obtain ⟨-, rfl⟩ := ends_modify_iff.mp hrest
    exact h.of_guarded hwarn hinv hfound
  · exact absurd hrest not_ends_giveUp

theorem yields_iff_ends {step : Step α} {context after : Context} {value : α} :
    Yields step context value after ↔ Ends step context (.ok value) after :=
  Iff.rfl

attribute [irreducible] Ends Yields

end DocCompiler.Build
