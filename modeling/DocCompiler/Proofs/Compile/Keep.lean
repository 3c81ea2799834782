import DocCompiler.Compile.Run
import DocCompiler.Proofs.File.Tree

/-!
What the parts of a run leave behind. Only taking and giving back the lock, writing the cache and writing
the document change files: everything else leaves them as they are, also when it ends with an error.
-/

namespace DocCompiler.Compile

variable {ε α β : Type} {inv : FileTree → Prop} {scene : Scene}

/-- The files as a part of a run leaves them, whether it comes to a value or ends with an error. -/
def left (step : Run α) (scene : Scene) : FileTree :=
  match step.run scene with
  | .ok _ after => after.files
  | .error _ after => after.files

theorem left_run (request : Request) (files : FileTree) :
    (run request files).1.files = left (compile request) { files } := by
  rw [run, left]
  split <;> simp_all

theorem run_pure (value : α) : (pure value : Run α).run scene = .ok value scene :=
  rfl

theorem run_get : (get : Run Scene).run scene = .ok scene scene :=
  rfl

theorem run_tell (lines : List LogLine) : (tell lines).run scene = .ok () { scene with log := scene.log ++ lines } :=
  rfl

theorem run_bind_of_ok {step : Run α} {next : α → Run β} {value : α} {after : Scene}
    (h : step.run scene = .ok value after) : (step >>= next).run scene = (next value).run after := by
  change EStateM.bind step next scene = _
  rw [EStateM.bind, show step scene = .ok value after from h]
  rfl

theorem run_bind_of_error {step : Run α} {next : α → Run β} {error : RunError} {after : Scene}
    (h : step.run scene = .error error after) : (step >>= next).run scene = .error error after := by
  change EStateM.bind step next scene = _
  rw [EStateM.bind, show step scene = .error error after from h]

theorem left_bind_of_ok {step : Run α} {next : α → Run β} {value : α} {after : Scene}
    (h : step.run scene = .ok value after) : left (step >>= next) scene = left (next value) after := by
  rw [left, run_bind_of_ok h, left]

theorem left_bind_of_error {step : Run α} {next : α → Run β} {error : RunError} {after : Scene}
    (h : step.run scene = .error error after) : left (step >>= next) scene = after.files := by
  rw [left, run_bind_of_error h]

theorem left_of_ok {step : Run α} {value : α} {after : Scene} (h : step.run scene = .ok value after) :
    left step scene = after.files := by
  rw [left, h]

theorem left_of_error {step : Run α} {error : RunError} {after : Scene} (h : step.run scene = .error error after) :
    left step scene = after.files := by
  rw [left, h]

/-- A part of a run that keeps what holds of the files. -/
def Keeps (inv : FileTree → Prop) (step : Run α) : Prop :=
  ∀ scene, inv scene.files → inv (left step scene)

theorem keeps_pure (value : α) : Keeps inv (pure value) :=
  fun _ h => h

theorem keeps_throw (error : RunError) : Keeps inv (throw error : Run α) :=
  fun _ h => h

theorem keeps_get : Keeps inv (get : Run Scene) :=
  fun _ h => h

theorem left_bind {step : Run α} {next : α → Run β} (h : inv (left step scene))
    (hnext : ∀ value, Keeps inv (next value)) : inv (left (step >>= next) scene) := by
  cases hrun : step.run scene with
  | ok value after =>
      rw [left_bind_of_ok hrun]
      exact hnext value after (left_of_ok hrun ▸ h)
  | error error after =>
      rw [left_bind_of_error hrun]
      exact left_of_error hrun ▸ h

theorem Keeps.bind {step : Run α} {next : α → Run β} (h : Keeps inv step) (hnext : ∀ value, Keeps inv (next value)) :
    Keeps inv (step >>= next) :=
  fun scene hscene => left_bind (h scene hscene) hnext

theorem keeps_throw_bind (error : RunError) (next : α → Run β) :
    Keeps inv ((throw error : Run α) >>= next) :=
  fun _ h => h

theorem keeps_tell (lines : List LogLine) : Keeps inv (tell lines) :=
  fun _ h => h

theorem keeps_note (level : LogLevel) (source message : String) : Keeps inv (note level source message) :=
  fun _ h => h

theorem keeps_orEnd (cause : ε → RunError) (result : Except ε α) : Keeps inv (orEnd cause result) := by
  cases result with
  | ok value => exact keeps_pure value
  | error error => exact keeps_throw (cause error)

theorem keeps_act {cause : ε → RunError} {action : FileTree → FileTree × Except ε α}
    (h : ∀ files, inv files → inv (action files).1) : Keeps inv (act cause action) := by
  intro scene hscene
  have hact : left (act cause action) scene = (action scene.files).1 := by
    change left (orEnd cause (action scene.files).2) { scene with files := (action scene.files).1 } = _
    cases (action scene.files).2 <;> rfl
  rw [hact]
  exact h scene.files hscene

theorem keeps_ite {condition : Prop} [Decidable condition] {step other : Run α} (h : Keeps inv step)
    (hother : Keeps inv other) : Keeps inv (if condition then step else other) := by
  split
  · exact h
  · exact hother

theorem keeps_locate (settings : Settings) (detectors : List Detector) : Keeps inv (locate settings detectors) := by
  refine keeps_get.bind fun scene => ?_
  split
  · refine (keeps_tell _).bind fun _ => ?_
    exact Keeps.bind (keeps_note _ _ _) fun _ => keeps_pure _
  · split
    · exact (keeps_tell _).bind fun _ => keeps_throw _
    · exact (keeps_pure _).bind fun _ => keeps_throw _

theorem keeps_plan (request : Request) : Keeps inv (plan request) := by
  refine keeps_ite (keeps_throw_bind _ _) (keeps_ite (keeps_throw_bind _ _) ?_)
  refine keeps_get.bind fun scene => (keeps_orEnd _ _).bind fun settings => ?_
  refine Keeps.bind (keeps_note _ _ _) fun _ => ?_
  refine (keeps_orEnd _ _).bind fun detectors => (keeps_locate _ _).bind fun located => ?_
  exact keeps_pure _

theorem keeps_describe (request : Request) (settings : Settings) (units : List Annotation.AnnotatedUnit) :
    Keeps inv (describe request settings units) := by
  refine (keeps_orEnd _ _).bind fun context => ?_
  refine Keeps.bind (keeps_note _ _ _) fun _ => ?_
  refine (keeps_orEnd _ _).bind fun resolved => (keeps_orEnd _ _).bind fun parts => ?_
  refine Keeps.bind (keeps_note _ _ _) fun _ => ?_
  exact (keeps_orEnd _ _).bind fun breaches => keeps_pure _

theorem keeps_textOf (settings : Settings) (model : Model) (format : String) :
    Keeps inv (textOf settings model format) := by
  refine (keeps_orEnd _ _).bind fun attached => keeps_ite ?_ ?_
  · exact Keeps.bind (keeps_note _ _ _) fun _ => keeps_orEnd _ _
  · exact keeps_orEnd _ _

theorem keeps_publish {request : Request} {target : Path}
    (h : ∀ text files, inv files → inv (files.write (request.directory.join target) text).1) (text : String) :
    Keeps inv (publish request target text) := by
  refine keeps_ite (keeps_throw_bind _ _) ?_
  exact (keeps_act (h text)).bind fun _ => keeps_note _ _ _

/-- The document is written last, to its own file, when it is asked for. -/
theorem keeps_conclude {request : Request} {plan : Plan}
    (h : request.writes = true → ∀ text files, inv files →
      inv (files.write (request.directory.join (outputOf request plan.settings)) text).1)
    (readings : List UnitReading) : Keeps inv (conclude request plan readings) := by
  refine (keeps_describe _ _ _).bind fun described => ?_
  refine keeps_ite ?_ ?_
  · exact Keeps.bind (keeps_note _ _ _) fun _ => keeps_pure _
  · refine (keeps_textOf _ _ _).bind fun text => ?_
    by_cases hwrites : request.writes = true
    · simp only [hwrites, if_true]
      refine (keeps_publish (h hwrites) text).bind fun _ => ?_
      exact Keeps.bind (keeps_note _ _ _) fun _ => keeps_pure _
    · simp only [hwrites]
      exact Keeps.bind (keeps_note _ _ _) fun _ => keeps_pure _

/-- A part of a run that only comes to values of some kind. -/
def Gives (post : α → Prop) (step : Run α) : Prop :=
  ∀ scene value after, step.run scene = .ok value after → post value

theorem gives_pure {post : α → Prop} {value : α} (h : post value) : Gives post (pure value) := by
  rintro scene _ _ ⟨⟩
  exact h

theorem gives_throw {post : α → Prop} (error : RunError) : Gives post (throw error : Run α) :=
  nofun

theorem gives_throw_bind {post : β → Prop} (error : RunError) (next : α → Run β) :
    Gives post ((throw error : Run α) >>= next) :=
  nofun

theorem gives_ite {post : α → Prop} {condition : Prop} [Decidable condition] {step other : Run α}
    (h : Gives post step) (hother : Gives post other) : Gives post (if condition then step else other) := by
  split
  · exact h
  · exact hother

theorem Gives.bind {pre : α → Prop} {post : β → Prop} {step : Run α} {next : α → Run β} (h : Gives pre step)
    (hnext : ∀ value, pre value → Gives post (next value)) : Gives post (step >>= next) := by
  intro scene last after hlast
  cases hrun : step.run scene with
  | ok value middle =>
      rw [run_bind_of_ok hrun] at hlast
      exact hnext value (h scene value middle hrun) middle last after hlast
  | error error middle =>
      rw [run_bind_of_error hrun] at hlast
      cases hlast

theorem gives_bind {post : β → Prop} {step : Run α} {next : α → Run β} (hnext : ∀ value, Gives post (next value)) :
    Gives post (step >>= next) := by
  have hstep : Gives (fun _ => True) step := fun _ _ _ _ => trivial
  exact hstep.bind fun value _ => hnext value

end DocCompiler.Compile
