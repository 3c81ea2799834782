import DocCompiler.Proofs.Cache.Damage
import DocCompiler.Proofs.Cache.Signature
import DocCompiler.Proofs.Compile.Keep
import DocCompiler.Proofs.File.Lock

/-!
The lock of the cache over a whole run. It is given back whatever comes of reading the sources, writing the
cache and making the document, but is left behind where the cache has no signature or cannot be loaded.
-/

namespace DocCompiler.Compile

variable {α : Type} {lock : Lock} {scene : Scene} {taken : FileTree}

/-- A step that ends with an error still does so under a lock, which is given back. -/
theorem releasing_run_of_error {step : Run α} {error : RunError} {after : Scene} (lock : Lock)
    (h : step.run scene = .error error after) :
    (releasing lock step).run scene = .error error { after with files := (lock.release after.files).1 } := by
  have hstep : (tryCatch step fun error => do
      release lock
      throw error).run scene = .error error { after with files := (lock.release after.files).1 } := by
    change EStateM.tryCatch step _ scene = _
    rw [EStateM.tryCatch, show step scene = .error error after from h]
    rfl
  rw [releasing, run_bind_of_error hstep]

theorem left_releasing (lock : Lock) (step : Run α) (scene : Scene) :
    left (releasing lock step) scene = (lock.release (left step scene)).1 := by
  cases h : step.run scene with
  | ok value after =>
      have hstep : (tryCatch step fun error => do
          release lock
          throw error).run scene = .ok value after := by
        change EStateM.tryCatch step _ scene = _
        rw [EStateM.tryCatch, show step scene = .ok value after from h]
      rw [left_of_ok h, releasing, left_bind_of_ok hstep]
      rfl
  | error error after => rw [left_of_error h, left_of_error (releasing_run_of_error lock h)]

theorem isNamed_lockOf (settings : Settings) : (lockOf settings).path.isNamed = true := by
  -- The name is too long to be one that leads up.
  have hname : settings.cache.path.name ++ ".lock" ≠ ".." := by
    intro heq
    have hlength := congrArg String.length heq
    rw [String.length_append] at hlength
    have : ".lock".length = 5 := rfl
    have : "..".length = 2 := rfl
    omega
  simp [lockOf, Path.isNamed, Path.withName, Path.child, hname]

theorem locate_lockOf_ne_nil (settings : Settings) : FileTree.locate (lockOf settings).path ≠ [] := by
  obtain ⟨name, hname⟩ := FileTree.locate_eq_of_isNamed (isNamed_lockOf settings)
  rw [hname]
  simp

/-- The file of the lock is not there, so that a run can get the lock. -/
def IsFree (settings : Settings) (files : FileTree) : Prop :=
  (lockOf settings).file? files = none

/-- A run that has found out what it goes by, uses the cache, and gets its lock. -/
structure TakesLock (request : Request) (files : FileTree) (plan : Plan) (taken : FileTree) : Prop where
  planned : ∃ scene, (Compile.plan request).run { files } = .ok plan scene
  uses : usesCache request plan.settings = true
  named : plan.settings.cache.path.names ≠ []
  got : ∃ lock, (lockOf plan.settings).acquire files = (taken, .ok lock) ∧ lock.held = true

/-- Once the lock is taken, the cache has to have a signature and to be loaded. -/
theorem openCache_run {request : Request} {plan : Plan} (h : TakesLock request scene.files plan taken) :
    ∃ lock, lock.held = true ∧ lock.path = (lockOf plan.settings).path ∧
      (openCache request plan.settings plan.detectors).run scene =
        match Cache.signatureOf plan.detectors plan.settings.constants with
        | .error error => .error (.signature error) { scene with files := taken }
        | .ok signature =>
            match Cache.load (some plan.settings.cache.path) signature taken with
            | .error error => .error (.cache error) { scene with files := taken }
            | .ok cache => .ok (some (lock, cache)) { scene with files := taken } := by
  obtain ⟨lock, hgot, hheld⟩ := h.got
  have hnames : plan.settings.cache.path.names.isEmpty = false := by simpa using h.named
  have hact : (act RunError.lock (lockOf plan.settings).acquire).run scene = .ok lock { scene with files := taken } := by
    change (orEnd RunError.lock ((lockOf plan.settings).acquire scene.files).2).run
      { scene with files := ((lockOf plan.settings).acquire scene.files).1 } = _
    rw [hgot]
    rfl
  refine ⟨lock, hheld, Lock.path_acquire hgot, ?_⟩
  simp only [openCache, h.uses, hnames, Bool.not_true, Bool.false_eq_true, if_false]
  rw [run_bind_of_ok hact]
  simp only [hheld, Bool.not_true, Bool.false_eq_true, if_false]
  cases Cache.signatureOf plan.detectors plan.settings.constants with
  | error error => rfl
  | ok signature =>
      change (orEnd RunError.cache (Cache.load (some plan.settings.cache.path) signature taken) >>=
        fun cache => pure (some (lock, cache)) : Run (Option (Lock × Cache))).run _ = _
      simp only
      cases Cache.load (some plan.settings.cache.path) signature taken with
      | error error => rfl
      | ok cache => rfl

/-- What the cache needs once the lock is taken: a signature, and a file that is loadable. -/
def IsOpened (plan : Plan) (taken : FileTree) : Prop :=
  (∃ signature, Cache.signatureOf plan.detectors plan.settings.constants = .ok signature) ∧
    ∀ content, taken.read plan.settings.cache.path = .ok content → Cache.IsLoadable content

section

variable {request : Request} {files : FileTree} {plan : Plan}

theorem TakesLock.run_plan (h : TakesLock request files plan taken) :
    ∃ scene, scene.files = files ∧ (Compile.plan request).run { files } = .ok plan scene := by
  obtain ⟨scene, hscene⟩ := h.planned
  refine ⟨scene, ?_, hscene⟩
  have hkeeps : Keeps (· = files) (Compile.plan request) := keeps_plan request
  have hfiles := hkeeps { files } rfl
  rwa [left_of_ok hscene] at hfiles

/-- With plain constants there is a signature, so the file of the cache alone decides. -/
theorem isOpened_iff_of_plain {plan : Plan} (h : ∀ entry ∈ plan.settings.constants, entry.2.Plain) :
    IsOpened plan taken ↔
      ∀ content, taken.read plan.settings.cache.path = .ok content → Cache.IsLoadable content := by
  refine and_iff_right ?_
  rw [Cache.signatureOf, Cache.signedText_eq, Json.write, Json.writeAt_eq _ (Cache.signed_plain _ h) 0]
  exact ⟨_, rfl⟩

/-- A cache that cannot be opened leaves the lock where it is. -/
theorem left_behind (h : TakesLock request files plan taken) (hopened : ¬ IsOpened plan taken) :
    (run request files).1.files = taken := by
  -- Both errors come behind the taking of the lock and before the part that gives it back.
  obtain ⟨scene, rfl, hplan⟩ := h.run_plan
  obtain ⟨lock, -, -, hopen⟩ := openCache_run h
  rw [left_run, compile, left_bind_of_ok hplan, readCached]
  cases hsignature : Cache.signatureOf plan.detectors plan.settings.constants with
  | error error =>
      rw [hsignature] at hopen
      rw [left_bind_of_error (run_bind_of_error hopen)]
  | ok signature =>
      cases hload : Cache.load (some plan.settings.cache.path) signature taken with
      | error error =>
          rw [hsignature] at hopen
          simp only [hload] at hopen
          rw [left_bind_of_error (run_bind_of_error hopen)]
      | ok cache => exact absurd ⟨⟨signature, hsignature⟩, Cache.load_eq_ok_iff.mp ⟨cache, hload⟩⟩ hopened

/-- A cache that is opened is worked with under the lock, which is given back afterwards. -/
theorem given_back (h : TakesLock request files plan taken) (hopened : IsOpened plan taken)
    (hapart : request.writes = true →
      ¬ (request.directory.join (outputOf request plan.settings)).LeadsThrough
        (FileTree.locate (lockOf plan.settings).path)) :
    IsFree plan.settings (run request files).1.files := by
  obtain ⟨scene, rfl, hplan⟩ := h.run_plan
  obtain ⟨lock, hheld, hpath, hopen⟩ := openCache_run h
  obtain ⟨⟨signature, hsignature⟩, hloadable⟩ := hopened
  obtain ⟨cache, hload⟩ : ∃ cache, Cache.load (some plan.settings.cache.path) signature taken = .ok cache :=
    Cache.load_eq_ok_iff.mpr hloadable
  rw [hsignature] at hopen
  simp only [hload] at hopen
  have hreleased {step : Run (List UnitReading)} {scene : Scene} :
      IsFree plan.settings (left (releasing lock step) scene) := by
    rw [left_releasing, Lock.release, if_pos hheld, hpath]
    exact FileTree.find?_erase_self (locate_lockOf_ne_nil plan.settings)
  have hconclude (readings : List UnitReading) :
      Keeps (IsFree plan.settings) (conclude request plan readings) := by
    refine keeps_conclude (fun hwrites text files hnone => ?_) readings
    exact FileTree.find?_write_eq_none hnone (hapart hwrites)
  rw [left_run, compile, left_bind_of_ok hplan]
  refine left_bind ?_ hconclude
  rw [readCached, left_bind_of_ok hopen]
  exact hreleased

/-- A run that got the lock of the cache has given it back at its end, whatever that end is, if and only if
the cache had a signature and could be loaded. The document is to be written elsewhere. -/
theorem lock_given_back_iff (hroot : files.isDirectory = true) (h : TakesLock request files plan taken)
    (hapart : request.writes = true →
      ¬ (request.directory.join (outputOf request plan.settings)).LeadsThrough
        (FileTree.locate (lockOf plan.settings).path)) :
    IsFree plan.settings (run request files).1.files ↔ IsOpened plan taken := by
  refine ⟨fun hgone => ?_, fun hopened => given_back h hopened hapart⟩
  by_contra hopened
  obtain ⟨lock, hgot, hheld⟩ := h.got
  have hfile := Lock.file?_acquire (isNamed_lockOf plan.settings) hroot rfl hgot hheld
  rw [left_behind h hopened, IsFree, hfile] at hgone
  cases hgone

end

/-- A run goes by its settings, detectors and sources when all of them are there. -/
theorem plan_run {request : Request} {files : FileTree} {settings : Settings} {detectors : List Detector}
    {located : Located} (huser : request.path.startsAtUser = false) (hnull : request.path.hasNull = false)
    (hsettings : Settings.load request.directory files (request.directory.resolve request.path) = .ok settings)
    (hdetectors : detectorsOf request settings = .ok detectors)
    (hlocated : locateSources settings.root settings.sources
      (fun identity => (Detector.find? detectors identity).isSome) files = .ok located) :
    ∃ scene, (plan request).run { files } = .ok ⟨settings, detectors, located⟩ scene := by
  simp only [plan, huser, hnull, Bool.false_eq_true, if_false]
  rw [run_bind_of_ok run_get, hsettings, orEnd, run_bind_of_ok (run_pure settings), note,
    run_bind_of_ok (run_tell _), hdetectors, orEnd, run_bind_of_ok (run_pure detectors), locate]
  simp only [bind_assoc]
  rw [run_bind_of_ok run_get, hlocated]
  simp only [bind_assoc]
  rw [run_bind_of_ok (run_tell _), note, run_bind_of_ok (run_tell _), run_bind_of_ok (run_pure located)]
  exact ⟨_, run_pure _⟩

/-- A project without sources, and what a run on it goes by. -/
def emptyRequest : Request :=
  { directory := ⟨"/", ["p"]⟩, path := ⟨"", []⟩, writes := false, detectors := some [] }

def emptyPlan : Plan :=
  { settings := .standard ⟨"/", ["p"]⟩, detectors := [], located := ⟨[], [], 1⟩ }

/-- The files of the project, with some entries beside the cache. -/
def filesWith (entries : List (String × FileTree)) : FileTree :=
  .directory [("p", .directory [(".apidocgen", .directory entries)])]

/-- Without detectors there are no sources. -/
theorem under_eq_nil {project root : Path} {rules : List IgnoreRule} {patterns : List String} {tree : FileTree} :
    Locate.under project rules patterns (fun identity => (Detector.find? [] identity).isSome) tree root = [] := by
  unfold Locate.under
  cases tree.follow? root with
  | none => rfl
  | some directory => simp [Detector.find?]

theorem plan_emptyRequest (entries : List (String × FileTree)) :
    ∃ scene, (plan emptyRequest).run { files := filesWith entries } = .ok emptyPlan scene := by
  have hlocated : locateSources emptyPlan.settings.root emptyPlan.settings.sources
      (fun identity => (Detector.find? [] identity).isSome) (filesWith entries) = .ok ⟨[], [], 1⟩ := by
    change Except.ok (Located.mk (Locate.sortSources (["."].flatMap _)) [] 1) = _
    rw [List.flatMap_singleton, under_eq_nil, Locate.sortSources, List.foldl_nil, List.mergeSort_nil]
  exact plan_run rfl rfl rfl rfl hlocated

/-- Without a file the cache is empty, and the lock is given back. -/
theorem lock_given_back_iff_empty :
    (filesWith []).isDirectory = true ∧
      ∃ taken, TakesLock emptyRequest (filesWith []) emptyPlan taken ∧
        (IsFree emptyPlan.settings (run emptyRequest (filesWith [])).1.files ↔ IsOpened emptyPlan taken) ∧
        IsOpened emptyPlan taken := by
  have htakes : TakesLock emptyRequest (filesWith []) emptyPlan (filesWith [("cache.json.lock", .file [] 0)]) :=
    { planned := plan_emptyRequest []
      uses := rfl
      named := by decide
      got := ⟨_, rfl, rfl⟩ }
  refine ⟨rfl, _, htakes, lock_given_back_iff rfl htakes nofun, ?_⟩
  rw [isOpened_iff_of_plain (by simp [emptyPlan, Settings.standard])]
  rintro _ ⟨⟩

/-- A file of the cache that is no text leaves the lock behind. -/
theorem lock_left_behind :
    ¬ ∀ (request : Request) (files : FileTree) (plan : Plan) (taken : FileTree),
      TakesLock request files plan taken → IsFree plan.settings (run request files).1.files := by
  intro hall
  have htakes : TakesLock emptyRequest (filesWith [("cache.json", .file [255] 0)]) emptyPlan
      (filesWith [("cache.json", .file [255] 0), ("cache.json.lock", .file [] 0)]) :=
    { planned := plan_emptyRequest _
      uses := rfl
      named := by decide
      got := ⟨_, rfl, rfl⟩ }
  have hopened : ¬ IsOpened emptyPlan (filesWith [("cache.json", .file [255] 0), ("cache.json.lock", .file [] 0)]) := by
    rintro ⟨-, hloadable⟩
    obtain ⟨chars, hdecode, -⟩ := hloadable [255] rfl
    cases hdecode
  have hgone := hall _ _ _ _ htakes
  rw [left_behind htakes hopened] at hgone
  cases hgone

end DocCompiler.Compile
