import DocCompiler.CommandLine.Clock
import DocCompiler.CommandLine.Command
import DocCompiler.File.Tree

/-!
The program: it takes the files of a project as they are, runs a command on them, and puts the files
that have changed back.
-/

namespace DocCompiler.CommandLine

/-- How the program is used. -/
def usage : String :=
  "usage: apidocgen [-h] [-v] build [-o OUTPUT] [--format json|yaml] [--no-cache] [--workers N] [path]\n" ++
  "       apidocgen [-h] [-v] check [path]\n"

/-- A time in milliseconds. -/
def milliseconds (time : IO.FS.SystemTime) : Int :=
  1000 * time.sec + time.nsec.toNat / 1000000

/-- The present time, from a file that is made for it. -/
def now : IO IO.FS.SystemTime := do
  let (_, path) ← IO.FS.createTempFile
  let time := (← path.metadata).modified
  IO.FS.removeFile path
  return time

/-- The file or directory that a path leads to, as a value. Links to directories are left out. -/
partial def snapshot (present : Int) (path : Path) : IO (Option FileTree) := do
  let place := (← IO.currentDir) / path.text
  let metadata ← try pure (some (← place.metadata)) catch _ => pure none
  match metadata with
  | none => return none
  | some metadata =>
      match metadata.type with
      | .dir =>
          let mut entries := []
          for entry in ← place.readDir do
            let link ← entry.path.symlinkMetadata
            let target ← try pure (some (← entry.path.metadata)) catch _ => pure none
            match link.type, target with
            | .symlink, none => entries := (entry.fileName, FileTree.deadLink) :: entries
            | kind, some target =>
                if !(kind == .symlink && target.type == .dir) then
                  match ← snapshot present (path.child entry.fileName) with
                  | some tree => entries := (entry.fileName, tree) :: entries
                  | none => pure ()
            | _, none => pure ()
          return some (.directory entries)
      | _ =>
          let content ← IO.FS.readBinFile place
          return some (.file content.toList (present - milliseconds metadata.modified))

/-- Adds the file or directory that a path leads to. -/
def include? (present : Int) (files : FileTree) (path : Path) : IO FileTree := do
  if (files.find? path.names).isSome then return files
  match ← snapshot present path with
  | some tree => return files.put path.names tree
  | none => return files

/-- The places outside of a project that its settings name. -/
def placesOf (settings : Settings) : List Path :=
  let cache := settings.cache.path
  let roots := settings.sources.roots.map fun root => settings.root.resolve (.ofText root)
  roots ++ [cache, (Compile.lockOf settings).path].map settings.root.resolve

/-- The files that a command may look at. -/
def gather (present : Int) (directory : Path) (arguments : Arguments) : IO FileTree := do
  let path := directory.resolve (.ofText arguments.path)
  let files ← include? present .empty path
  let files ←
    if (files.isDirectoryAt path).toOption.getD false then pure files
    else include? present files path.parent
  match Settings.load directory files path with
  | .ok settings => (placesOf settings).foldlM (include? present) files
  | .error _ => return files

/-- Puts a change into effect. A file is written as a whole. -/
def apply (change : FileChange) : IO Unit := do
  let here ← IO.currentDir
  match change with
  | .removed names => IO.FS.removeFile (here / (Path.text ⟨"/", names⟩))
  | .written names content =>
      let path : Path := ⟨"/", names⟩
      IO.FS.createDirAll (here / path.parent.text)
      let draft := here / (path.withName ("." ++ path.name ++ ".tmp")).text
      IO.FS.writeBinFile draft ⟨content.toArray⟩
      IO.FS.rename draft (here / path.text)

/-- Runs a command on the files of the working directory. -/
def perform (arguments : Arguments) : IO UInt32 := do
  let directory := Path.ofText (← IO.currentDir).toString
  let time ← now
  let files ← gather (milliseconds time) directory arguments
  let text := timeText time.sec.toNat (time.nsec.toNat / 1000)
  let (after, result) := execute arguments directory text files
  (files.changes after).forM apply
  match result with
  | .ok shown =>
      IO.print shown.output
      IO.eprint shown.errors
      return UInt32.ofNat shown.code
  | .error error =>
      IO.eprintln (repr error).pretty
      return 1

end DocCompiler.CommandLine

/-- The program. -/
def main (texts : List String) : IO UInt32 := do
  match DocCompiler.CommandLine.Arguments.ofTexts texts with
  | .error .help =>
      IO.print DocCompiler.CommandLine.usage
      return 0
  | .error .misuse =>
      IO.eprint DocCompiler.CommandLine.usage
      return 2
  | .ok arguments => DocCompiler.CommandLine.perform arguments
