import Recordgen.Emission.Run

/-! # File systems

The few operations on files that the program needs, with the effects they have. A file is replaced
in one stroke: its new contents are written beside it and then put in its place.
-/

namespace Recordgen

/-- The operations of a file system. -/
structure FileSystem (m : Type → Type) where
  /-- The contents of a file. -/
  read : (path : String) → m (Except StorageFault String)
  /-- Whether there is a file or a directory at a path. -/
  isPresent : (path : String) → m Bool
  isDirectory : (path : String) → m Bool
  /-- Makes one directory. -/
  makeDirectory : (path : String) → m (Except StorageFault Unit)
  /-- Writes a file, in place of one that is there. -/
  writeFile : (path contents : String) → m (Except StorageFault Unit)
  /-- Gives a file another path, in place of a file that is there. -/
  rename : (source target : String) → m (Except StorageFault Unit)

namespace FileSystem

variable {m : Type → Type} [Monad m]

/-- A storage operation as part of a run. -/
def attempt {α : Type} (operation : m (Except StorageFault α)) : ExceptT CompileError m α :=
  ExceptT.mk (Except.mapError CompileError.storage <$> operation)

/-- The contents of a file. -/
def readText (files : FileSystem m) (path : String) : ExceptT CompileError m String :=
  attempt (files.read path)

/-- Makes the first of some directories, each of which lies in the next one. A directory that is
missing on the way is made first. -/
def makeDirectories (files : FileSystem m) : List String → m (Except StorageFault Unit)
  | [] => pure (.ok ())
  | path :: outer => do
    match ← files.makeDirectory path with
    | .ok _ => pure (.ok ())
    | .error .notFound =>
      match ← files.makeDirectories outer with
      | .error fault => pure (.error fault)
      | .ok _ => settle path (← files.makeDirectory path)
    | result => settle path result
where
  /-- A directory that is there already is as good as a new one. -/
  settle (path : String) : Except StorageFault Unit → m (Except StorageFault Unit)
    | .error .alreadyExists => do
      if ← files.isDirectory path then pure (.ok ()) else pure (.error .alreadyExists)
    | result => pure result

/-- Makes a directory and all directories above it. -/
def ensureDirectory (files : FileSystem m) (path : String) : ExceptT CompileError m Unit :=
  match Path.parent? path with
  | some _ => attempt (files.makeDirectories (path :: Path.above path))
  | none => pure ()

/-- The path beside a file at which its new contents are written first. -/
def temporaryPath (path : String) : Except CompileError String :=
  match Path.fileName? path with
  | some name => .ok (Path.join ((Path.parent? path).getD "") (name ++ ".tmp"))
  | none => .error (.options (.badArtifactPath path))

/-- Replaces a file. When the last step fails, the new contents stay beside it. -/
def replaceFile (files : FileSystem m) (path contents : String) : ExceptT CompileError m Unit := do
  if let some parent := Path.parent? path then
    files.ensureDirectory parent
  let temporary ← ExceptT.mk (pure (temporaryPath path))
  attempt (files.writeFile temporary contents)
  attempt (files.rename temporary path)

/-- The sink that writes under a directory. -/
def sink (files : FileSystem m) (root : String) : Sink m where
  ensureDirectory path := files.ensureDirectory (Path.join root path)
  contains path := files.isPresent (Path.join root path)
  write path contents := files.replaceFile (Path.join root path) contents

end FileSystem

end Recordgen
