import DocCompiler.File.Tree

/-!
Locks: files that only one run can make. A lock that has become too old was left behind by a run that
is gone, and is broken. Taking a lock is a row of single steps, between which other runs may take
steps of their own.
-/

namespace DocCompiler

/-- A lock as one run sees it. From `staleAfter` milliseconds on the lock of another run is stale. -/
structure Lock where
  path : Path
  staleAfter : Int := 600000
  held : Bool := false
  deriving DecidableEq, Repr, Inhabited

/-- What a run that takes a lock does next; `more` counts the tries it has after this one. -/
inductive LockStage
  /-- Makes the file. -/
  | create (more : Nat)
  /-- Looks how old the file of another run is. -/
  | check (more : Nat)
  /-- Removes a stale file. -/
  | remove (more : Nat)
  /-- Is done, with the lock or without it. -/
  | done (held : Bool)
  deriving DecidableEq, Repr, Inhabited

namespace LockStage

/-- The next try, if there is one. -/
def retry : (more : Nat) → LockStage
  | 0 => .done false
  | more + 1 => .create more

/-- How many steps are left at most. -/
def rank : LockStage → Nat
  | .create more => 3 * more + 3
  | .check more => 3 * more + 2
  | .remove more => 3 * more + 1
  | .done _ => 0

end LockStage

namespace Lock

/-- One step of taking a lock. A link to nothing stands in the way, but is as good as no file when it
is looked at; a directory is never stale. -/
def step (lock : Lock) (stage : LockStage) (tree : FileTree) : FileTree × LockStage :=
  let names := FileTree.locate lock.path
  match stage with
  | .create more =>
      match tree.find? names with
      | none => (tree.put names (.file [] 0), .done true)
      | some _ => (tree, .check more)
  | .check more =>
      match tree.find? names with
      | some (.file _ age) =>
          (tree, if age < lock.staleAfter then .done false else .remove more)
      | some (.directory _) => (tree, .done false)
      | _ => (tree, .retry more)
  | .remove more => (tree.erase names, .retry more)
  | .done held => (tree, .done held)

/-- Steps that follow each other without steps of other runs between them. -/
def steps (lock : Lock) : (count : Nat) → LockStage → FileTree → FileTree × LockStage
  | 0, stage, tree => (tree, stage)
  | count + 1, stage, tree =>
      let (tree, stage) := lock.step stage tree
      lock.steps count stage tree

/-- Where a run starts that takes a lock: it has two tries. -/
def start : LockStage :=
  .create 1

/-- Takes a lock, unless another run holds it. Its directory is made when it is not there. -/
def acquire (lock : Lock) (tree : FileTree) : FileTree × Except FileError Lock :=
  match tree.makeDirectory lock.path.parent with
  | .error error => (tree, .error error)
  | .ok tree =>
      match FileTree.nameError? lock.path with
      | some error => (tree, .error error)
      | none =>
          match lock.steps start.rank start tree with
          | (tree, .done true) => (tree, .ok { lock with held := true })
          | (tree, _) => (tree, .ok lock)

/-- Gives a lock back, if it is held. -/
def release (lock : Lock) (tree : FileTree) : FileTree × Lock :=
  if lock.held then (tree.erase (FileTree.locate lock.path), { lock with held := false })
  else (tree, lock)

end Lock

end DocCompiler
