import DocCompiler.Proofs.File.Lock
import Mathlib.Data.List.Induction

/-!
Runs that contend for one lock, each in steps of its own between which the others take theirs. Two runs
come to hold the lock at once only if one of them takes away the file of another one that holds it: a
stale file may be replaced after a run has looked at it and before the run removes it. Where there is no
stale file to begin with, no two runs ever hold the lock at once.
-/

namespace DocCompiler

/-- Runs that contend for a lock: the files they share, and what each of them does next. -/
structure Contest (ι : Type) where
  files : FileTree
  stage : ι → LockStage

namespace Contest

variable {ι : Type} [DecidableEq ι]

/-- What happens next: a run starts to take the lock, takes one step of that, or gives the lock back, or
the file of the lock gets older. -/
inductive Move (ι : Type)
  | start (run : ι)
  | step (run : ι)
  | release (run : ι)
  | wait (age : Int)

/-- The contest when a run has left other files and goes on from another stage. -/
def goOn (contest : Contest ι) (run : ι) (files : FileTree) (stage : LockStage) : Contest ι where
  files
  stage other := if other = run then stage else contest.stage other

/-- The contest after a move. A run that has the lock does not start again before it has given it back. -/
def after (lock : Lock) (contest : Contest ι) : Move ι → Contest ι
  | .start run =>
      if contest.stage run = .done false then contest.goOn run contest.files Lock.start else contest
  | .step run =>
      let (files, stage) := lock.step (contest.stage run) contest.files
      contest.goOn run files stage
  | .release run =>
      if contest.stage run = .done true then
        contest.goOn run (({ lock with held := true } : Lock).release contest.files).1 (.done false)
      else contest
  | .wait age =>
      match lock.file? contest.files with
      | some (.file content _) =>
          { contest with files := contest.files.put (FileTree.locate lock.path) (.file content age) }
      | _ => contest

/-- A run has the lock. -/
def Holds (contest : Contest ι) (run : ι) : Prop :=
  contest.stage run = .done true

/-- At most one run has the lock. -/
def Exclusive (contest : Contest ι) : Prop :=
  ∀ run other, contest.Holds run → contest.Holds other → run = other

/-- A lock does not become stale while a run has it. -/
def Timely (lock : Lock) (contest : Contest ι) : Move ι → Prop
  | .wait age => (∃ run, contest.Holds run) → age < lock.staleAfter
  | _ => True

/-- A run takes away the file of a lock that another run has. -/
def Robs (contest : Contest ι) : Move ι → Prop
  | .step run => (∃ more, contest.stage run = .remove more) ∧ ∃ other, contest.Holds other
  | _ => False

/-- Moves of an admitted kind that follow each other. -/
inductive Leads (lock : Lock) (admitted : Contest ι → Move ι → Prop) : Contest ι → Contest ι → Prop
  | refl (contest : Contest ι) : Leads lock admitted contest contest
  | tail {first last : Contest ι} {move : Move ι} (moves : Leads lock admitted first last)
      (move_admitted : admitted last move) : Leads lock admitted first (last.after lock move)

theorem Leads.induction {lock : Lock} {admitted : Contest ι → Move ι → Prop} {inv : Contest ι → Prop}
    (hstep : ∀ contest move, inv contest → admitted contest move → inv (contest.after lock move))
    {first last : Contest ι} (hfirst : inv first) (h : Leads lock admitted first last) : inv last := by
  induction h with
  | refl => exact hfirst
  | tail _ hmove ih => exact hstep _ _ ih hmove

theorem leads_foldl {lock : Lock} {admitted : Contest ι → Move ι → Prop} (first : Contest ι)
    (moves : List (Move ι)) (h : ∀ move ∈ moves, ∀ contest, admitted contest move) :
    Leads lock admitted first (moves.foldl (after lock) first) := by
  induction moves using List.reverseRecOn with
  | nil => exact .refl first
  | append_singleton moves move ih =>
      rw [List.foldl_append]
      exact .tail (ih fun other hother => h other (by simp [hother])) (h move (by simp) _)

variable {lock : Lock} {contest : Contest ι} {run : ι} {files : FileTree} {stage : LockStage}

theorem holds_goOn_iff {other : ι} :
    (contest.goOn run files stage).Holds other ↔
      (other = run ∧ stage = .done true) ∨ (other ≠ run ∧ contest.Holds other) := by
  by_cases h : other = run <;> simp [Holds, goOn, h]

theorem goOn_self (h : contest.stage run = stage) : contest.goOn run contest.files stage = contest := by
  rw [goOn, ← h]
  congr 1
  funext other
  split
  · next heq => rw [heq]
  · rfl

/-- One run at most has the lock, and its file is there and not stale then. -/
structure Guarded (lock : Lock) (contest : Contest ι) : Prop where
  place : lock.HasPlace contest.files
  exclusive : contest.Exclusive
  young : ∀ run, contest.Holds run →
    ∃ content age, lock.file? contest.files = some (.file content age) ∧ age < lock.staleAfter

/-- A run that does not get the lock, and leaves the file as it is, leaves the lock to who has it. -/
theorem Guarded.goOn (h : contest.Guarded lock) (hplace : lock.HasPlace files) (hstage : stage ≠ .done true)
    (hfile : ∀ other ≠ run, contest.Holds other → lock.file? files = lock.file? contest.files) :
    (contest.goOn run files stage).Guarded lock where
  place := hplace
  exclusive first second hfirst hsecond := by
    rcases holds_goOn_iff.mp hfirst with ⟨-, hdone⟩ | ⟨-, hfirst⟩
    · exact absurd hdone hstage
    rcases holds_goOn_iff.mp hsecond with ⟨-, hdone⟩ | ⟨-, hsecond⟩
    · exact absurd hdone hstage
    exact h.exclusive first second hfirst hsecond
  young other hother := by
    rcases holds_goOn_iff.mp hother with ⟨-, hdone⟩ | ⟨hne, hother⟩
    · exact absurd hdone hstage
    · change ∃ content age, lock.file? files = some (.file content age) ∧ age < lock.staleAfter
      rw [hfile other hne hother]
      exact h.young other hother

theorem Guarded.create (h : contest.Guarded lock) (hstale : 0 < lock.staleAfter)
    (hnone : lock.file? contest.files = none) :
    (contest.goOn run (contest.files.put (FileTree.locate lock.path) (.file [] 0)) (.done true)).Guarded lock where
  place := h.place.put
  exclusive first second hfirst hsecond := by
    -- Whoever has the lock has its file, and there is none.
    have hnobody (other : ι) (hother : contest.Holds other) : False := by
      obtain ⟨content, age, hfile, -⟩ := h.young other hother
      rw [hnone] at hfile
      cases hfile
    rcases holds_goOn_iff.mp hfirst with ⟨rfl, -⟩ | ⟨-, hfirst⟩
    · rcases holds_goOn_iff.mp hsecond with ⟨rfl, -⟩ | ⟨-, hsecond⟩
      · rfl
      · exact (hnobody second hsecond).elim
    · exact (hnobody first hfirst).elim
  young _ _ := ⟨[], 0, Lock.file?_put h.place, hstale⟩

theorem Guarded.step (h : contest.Guarded lock) (hstale : 0 < lock.staleAfter)
    (hrobs : ¬ contest.Robs (.step run)) : (contest.after lock (.step run)).Guarded lock := by
  simp only [after]
  cases hstage : contest.stage run with
  | create more =>
      cases hfile : lock.file? contest.files with
      | none =>
          rw [Lock.step_create_of_none hfile]
          exact h.create hstale hfile
      | some part =>
          rw [Lock.step_create_of_some hfile]
          exact h.goOn h.place (by simp) fun _ _ _ => rfl
  | check more =>
      obtain ⟨hsame, hnext⟩ := Lock.step_check lock contest.files more
      rw [hsame]
      refine h.goOn h.place ?_ fun _ _ _ => rfl
      rcases hnext with ⟨hnext, -⟩ | hnext | hnext
      · simp [hnext]
      · simp [hnext]
      · rw [hnext]
        exact Lock.retry_ne_done more
  | remove more =>
      -- The file that goes may be another one than the stale one that was seen, but is nobody's.
      refine h.goOn h.place.erase (Lock.retry_ne_done more) fun other _ hother => ?_
      exact absurd ⟨⟨more, hstage⟩, other, hother⟩ hrobs
  | done held =>
      rw [Lock.step, goOn_self hstage]
      exact h

theorem Guarded.after {move : Move ι} (h : contest.Guarded lock) (hstale : 0 < lock.staleAfter)
    (htimely : contest.Timely lock move) (hrobs : ¬ contest.Robs move) :
    (contest.after lock move).Guarded lock := by
  cases move with
  | start run =>
      simp only [Contest.after]
      split
      · exact h.goOn h.place (by simp [Lock.start]) fun _ _ _ => rfl
      · exact h
  | step run => exact h.step hstale hrobs
  | release run =>
      simp only [Contest.after, Lock.release, if_true]
      split
      · next hholds =>
          refine h.goOn h.place.erase (by simp) fun other hne hother => ?_
          exact absurd (h.exclusive other run hother hholds) hne
      · exact h
  | wait age =>
      simp only [Contest.after]
      split
      · exact
          { place := h.place.put
            exclusive := h.exclusive
            young := fun run hrun => ⟨_, age, Lock.file?_put h.place, htimely ⟨run, hrun⟩⟩ }
      · exact h

/-- The lock is guarded, its file is there only while a run has it, and nobody is about to remove it. -/
structure Unthreatened (lock : Lock) (contest : Contest ι) : Prop where
  guarded : contest.Guarded lock
  kept : lock.file? contest.files ≠ none → ∃ run, contest.Holds run
  calm : ∀ run more, contest.stage run ≠ .remove more

theorem Unthreatened.calm_goOn (h : contest.Unthreatened lock) (hremove : ∀ more, stage ≠ .remove more)
    (other : ι) (more : Nat) : (contest.goOn run files stage).stage other ≠ .remove more := by
  simp only [Contest.goOn]
  split
  · exact hremove more
  · exact h.calm other more

theorem Unthreatened.goOn (h : contest.Unthreatened lock) (hrun : ¬ contest.Holds run)
    (hdone : stage ≠ .done true) (hremove : ∀ more, stage ≠ .remove more) :
    (contest.goOn run contest.files stage).Unthreatened lock where
  guarded := h.guarded.goOn h.guarded.place hdone fun _ _ _ => rfl
  kept hfile := by
    obtain ⟨other, hother⟩ := h.kept hfile
    exact ⟨other, holds_goOn_iff.mpr (.inr ⟨fun heq => hrun (heq ▸ hother), hother⟩)⟩
  calm := h.calm_goOn hremove

theorem Unthreatened.step (h : contest.Unthreatened lock) (hstale : 0 < lock.staleAfter) :
    (contest.after lock (.step run)).Unthreatened lock := by
  have hguarded : (contest.after lock (.step run)).Guarded lock :=
    h.guarded.step hstale fun hrobs => hrobs.1.elim fun more => h.calm run more
  simp only [after] at hguarded ⊢
  cases hstage : contest.stage run with
  | create more =>
      have hrun : ¬ contest.Holds run := by simp [Holds, hstage]
      rw [hstage] at hguarded
      cases hfile : lock.file? contest.files with
      | none =>
          rw [Lock.step_create_of_none hfile] at hguarded ⊢
          exact
            { guarded := hguarded
              kept := fun _ => ⟨run, holds_goOn_iff.mpr (.inl ⟨rfl, rfl⟩)⟩
              calm := h.calm_goOn (by simp) }
      | some part =>
          rw [Lock.step_create_of_some hfile]
          exact h.goOn hrun (by simp) (by simp)
  | check more =>
      have hrun : ¬ contest.Holds run := by simp [Holds, hstage]
      obtain ⟨hsame, hnext⟩ := Lock.step_check lock contest.files more
      rw [hsame]
      rcases hnext with ⟨-, content, age, hfile, hage⟩ | hnext | hnext
      · -- A run has the lock whose file is there, so the file is not stale.
        obtain ⟨other, hother⟩ := h.kept (by simp [hfile])
        obtain ⟨_, young, hyoung, hlt⟩ := h.guarded.young other hother
        rw [hfile] at hyoung
        cases hyoung
        exact absurd hlt hage
      · rw [hnext]
        exact h.goOn hrun (by simp) (by simp)
      · rw [hnext]
        exact h.goOn hrun (Lock.retry_ne_done more) (Lock.retry_ne_remove more)
  | remove more => exact absurd hstage (h.calm run more)
  | done held =>
      rw [Lock.step, goOn_self hstage]
      exact h

theorem Unthreatened.after {move : Move ι} (h : contest.Unthreatened lock) (hstale : 0 < lock.staleAfter)
    (htimely : contest.Timely lock move) : (contest.after lock move).Unthreatened lock := by
  cases move with
  | start run =>
      simp only [Contest.after]
      split
      · next hidle => exact h.goOn (by simp [Holds, hidle]) (by simp [Lock.start]) (by simp [Lock.start])
      · exact h
  | step run => exact h.step hstale
  | release run =>
      have hguarded : (contest.after lock (.release run)).Guarded lock := h.guarded.after hstale htimely id
      simp only [Contest.after, Lock.release, if_true] at hguarded ⊢
      split
      · next hholds =>
          rw [if_pos hholds] at hguarded
          exact
            { guarded := hguarded
              kept := fun hfile => absurd (Lock.file?_erase h.guarded.place) hfile
              calm := h.calm_goOn (by simp) }
      · exact h
  | wait age =>
      have hguarded : (contest.after lock (.wait age)).Guarded lock := h.guarded.after hstale htimely id
      simp only [Contest.after] at hguarded ⊢
      split
      · next hfile =>
          simp only [hfile] at hguarded
          exact
            { guarded := hguarded
              kept := fun _ => h.kept (by simp [hfile])
              calm := h.calm }
      · exact h

/-- At most one run has the lock at any time, whatever the order of the steps of all runs, so long as no
lock becomes stale while a run has it and no run takes away the file of a lock that another one has. The
latter can only happen where a file was there before: without one it is not asked for. -/
theorem exclusive_of_leads {first last : Contest ι} (hstale : 0 < lock.staleAfter)
    (hplace : lock.HasPlace first.files) (hidle : ∀ run, first.stage run = .done false)
    (h : Leads lock
      (fun contest move =>
        contest.Timely lock move ∧ (lock.file? first.files ≠ none → ¬ contest.Robs move))
      first last) : last.Exclusive := by
  have hnobody (run : ι) : ¬ first.Holds run := by simp [Holds, hidle]
  have hguarded : first.Guarded lock :=
    { place := hplace
      exclusive := fun run _ hrun => absurd hrun (hnobody run)
      young := fun run hrun => absurd hrun (hnobody run) }
  cases hfile : lock.file? first.files with
  | none =>
      have hfirst : first.Unthreatened lock :=
        { guarded := hguarded
          kept := fun hne => absurd hfile hne
          calm := by simp [hidle] }
      have hlast : last.Unthreatened lock :=
        h.induction (fun _ _ hinv hmove => hinv.after hstale hmove.1) hfirst
      exact hlast.guarded.exclusive
  | some part =>
      have hlast : last.Guarded lock :=
        h.induction (fun _ _ hinv hmove => hinv.after hstale hmove.1 (hmove.2 (by simp [hfile]))) hguarded
      exact hlast.exclusive

/-- A lock in the root of all files. -/
def rootLock : Lock :=
  { path := ⟨"/", ["lock"]⟩ }

/-- Two runs that do not take the lock yet. -/
def idle (files : FileTree) : Contest Bool where
  files
  stage _ := .done false

theorem hasPlace_rootLock (entries : List (String × FileTree)) :
    rootLock.HasPlace (.directory entries) :=
  ⟨[], "lock", rfl, entries, rfl⟩

/-- Two runs try to take a lock that nobody has. -/
theorem exclusive_of_leads_idle :
    0 < rootLock.staleAfter ∧ rootLock.HasPlace (idle .empty).files ∧
      ([.start false, .start true, .step false, .step true, .step true].foldl (after rootLock)
        (idle .empty)).Exclusive :=
  ⟨by decide, hasPlace_rootLock [],
    @exclusive_of_leads Bool _ rootLock (idle .empty) _ (by decide) (hasPlace_rootLock []) (fun _ => rfl)
      (leads_foldl _ _ fun move hmove _ => by
        simp only [List.mem_cons, List.not_mem_nil, or_false] at hmove
        rcases hmove with rfl | rfl | rfl | rfl | rfl <;> exact ⟨trivial, fun hfile => absurd rfl hfile⟩)⟩

/-- Two runs find the same stale file. The second one removes the file that the first one has made in its
place, and both have the lock. -/
theorem not_exclusive_of_stale :
    ¬ ∀ (lock : Lock) (first last : Contest Bool), 0 < lock.staleAfter → lock.HasPlace first.files →
      (∀ run, first.stage run = .done false) →
      (∀ part, lock.file? first.files = some part →
        ∃ content age, part = .file content age ∧ lock.staleAfter ≤ age) →
      Leads lock (Timely lock) first last → last.Exclusive := by
  intro hall
  have hboth := hall rootLock (idle (.directory [("lock", .file [] 600000)])) _ (by decide)
    (hasPlace_rootLock _) (fun _ => rfl)
    (fun part hpart => ⟨[], 600000, (Option.some.inj hpart).symm, by decide⟩)
    (leads_foldl _
      [.start false, .start true, .step false, .step false, .step true, .step true,
        .step false, .step false, .step true, .step true]
      fun move hmove _ => by
        simp only [List.mem_cons, List.not_mem_nil, or_false] at hmove
        rcases hmove with rfl | rfl | rfl | rfl | rfl | rfl | rfl | rfl | rfl | rfl <;> exact trivial)
  exact absurd (hboth false true rfl rfl) (by decide)

end Contest

end DocCompiler
