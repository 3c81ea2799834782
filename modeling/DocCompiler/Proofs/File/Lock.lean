import DocCompiler.File.Lock
import DocCompiler.Proofs.File.Tree

/-!
The single steps of taking a lock, and what they come to: a run that gets the lock has made its file, which
is new and empty.
-/

namespace DocCompiler

namespace Lock

variable {lock : Lock} {tree part : FileTree} {stage : LockStage} {more : Nat}

/-- What stands where the file of a lock belongs. -/
def file? (lock : Lock) (tree : FileTree) : Option FileTree :=
  tree.find? (FileTree.locate lock.path)

/-- The directory that the file of a lock belongs into is there. -/
def HasPlace (lock : Lock) (tree : FileTree) : Prop :=
  ∃ above name, FileTree.locate lock.path = above ++ [name] ∧ tree.HasDirectory above

theorem file?_put (h : lock.HasPlace tree) :
    lock.file? (tree.put (FileTree.locate lock.path) part) = some part := by
  obtain ⟨above, name, hnames, habove⟩ := h
  rw [file?, hnames]
  exact FileTree.find?_put_self habove

theorem file?_erase (h : lock.HasPlace tree) :
    lock.file? (tree.erase (FileTree.locate lock.path)) = none := by
  obtain ⟨above, name, hnames, -⟩ := h
  rw [file?, hnames]
  exact FileTree.find?_erase_self (by simp)

theorem HasPlace.put (h : lock.HasPlace tree) :
    lock.HasPlace (tree.put (FileTree.locate lock.path) part) := by
  obtain ⟨above, name, hnames, habove⟩ := h
  refine ⟨above, name, hnames, ?_⟩
  rw [hnames]
  exact habove.alter

theorem HasPlace.erase (h : lock.HasPlace tree) :
    lock.HasPlace (tree.erase (FileTree.locate lock.path)) := by
  obtain ⟨above, name, hnames, habove⟩ := h
  refine ⟨above, name, hnames, ?_⟩
  rw [hnames]
  exact habove.alter

theorem step_create_of_none (h : lock.file? tree = none) :
    lock.step (.create more) tree = (tree.put (FileTree.locate lock.path) (.file [] 0), .done true) := by
  rw [file?] at h
  simp only [step, h]

theorem step_create_of_some (h : lock.file? tree = some part) :
    lock.step (.create more) tree = (tree, .check more) := by
  rw [file?] at h
  simp only [step, h]

theorem retry_ne_done (more : Nat) : LockStage.retry more ≠ .done true := by
  cases more <;> simp [LockStage.retry]

theorem retry_ne_remove (more count : Nat) : LockStage.retry more ≠ .remove count := by
  cases more <;> simp [LockStage.retry]

/-- Looking at the file of a lock changes nothing, and finds it stale, or not, or gone. -/
theorem step_check (lock : Lock) (tree : FileTree) (more : Nat) :
    (lock.step (.check more) tree).1 = tree ∧
      (((lock.step (.check more) tree).2 = .remove more ∧
          ∃ content age, lock.file? tree = some (.file content age) ∧ ¬ age < lock.staleAfter) ∨
        (lock.step (.check more) tree).2 = .done false ∨
        (lock.step (.check more) tree).2 = .retry more) := by
  simp only [step, file?]
  split
  · rename_i content age hfile
    refine ⟨rfl, ?_⟩
    by_cases hage : age < lock.staleAfter
    · exact .inr (.inl (if_pos hage))
    · exact .inl ⟨if_neg hage, content, age, hfile, hage⟩
  · exact ⟨rfl, .inr (.inl rfl)⟩
  · exact ⟨rfl, .inr (.inr rfl)⟩

theorem HasPlace.step (h : lock.HasPlace tree) : lock.HasPlace (lock.step stage tree).1 := by
  cases stage with
  | create more =>
      cases hfile : lock.file? tree with
      | none =>
          rw [step_create_of_none hfile]
          exact h.put
      | some part =>
          rw [step_create_of_some hfile]
          exact h
  | check more =>
      rw [(step_check lock tree more).1]
      exact h
  | remove more => exact h.erase
  | done held => exact h

/-- The file of a lock is new when the lock is got. -/
theorem file?_step (hplace : lock.HasPlace tree)
    (hstage : stage = .done true → lock.file? tree = some (.file [] 0))
    (h : (lock.step stage tree).2 = .done true) : lock.file? (lock.step stage tree).1 = some (.file [] 0) := by
  cases stage with
  | create more =>
      cases hfile : lock.file? tree with
      | none =>
          rw [step_create_of_none hfile]
          exact file?_put hplace
      | some part =>
          rw [step_create_of_some hfile] at h
          cases h
  | check more =>
      rcases (step_check lock tree more).2 with ⟨hnext, -⟩ | hnext | hnext
      · rw [hnext] at h
        cases h
      · rw [hnext] at h
        cases h
      · exact absurd (hnext.symm.trans h) (retry_ne_done more)
  | remove more => exact absurd h (retry_ne_done more)
  | done held => exact hstage h

theorem file?_steps {count : Nat} {after : FileTree} (hplace : lock.HasPlace tree)
    (hstage : stage = .done true → lock.file? tree = some (.file [] 0))
    (h : lock.steps count stage tree = (after, .done true)) : lock.file? after = some (.file [] 0) := by
  induction count generalizing stage tree with
  | zero =>
      obtain ⟨rfl, rfl⟩ := Prod.mk.inj h
      exact hstage rfl
  | succ count ih => exact ih hplace.step (file?_step hplace hstage) h

theorem hasPlace_of_isNamed (hnamed : lock.path.isNamed = true) (h : tree.HasDirectory (FileTree.locate lock.path.parent)) :
    lock.HasPlace tree := by
  obtain ⟨name, hname⟩ := FileTree.locate_eq_of_isNamed hnamed
  exact ⟨_, name, hname, h⟩

theorem path_acquire {taken : FileTree} {got : Lock} (h : lock.acquire tree = (taken, .ok got)) :
    got.path = lock.path := by
  rw [acquire] at h
  split at h
  · cases h
  · split at h
    · cases h
    · split at h <;> cases h <;> rfl

/-- A run that has got the lock has made its file. -/
theorem file?_acquire {taken : FileTree} {got : Lock} (hnamed : lock.path.isNamed = true)
    (hroot : tree.isDirectory = true) (hfree : lock.held = false)
    (h : lock.acquire tree = (taken, .ok got)) (hheld : got.held = true) :
    lock.file? taken = some (.file [] 0) := by
  rw [acquire] at h
  split at h
  · cases h
  · next made hmade =>
      have hplace := hasPlace_of_isNamed hnamed (FileTree.hasDirectory_makeDirectory hroot hmade)
      split at h
      · cases h
      · split at h
        · next after hsteps =>
            cases h
            exact file?_steps hplace (by simp [start]) hsteps
        · cases h
          rw [hfree] at hheld
          cases hheld

end Lock

end DocCompiler
