import Recordgen.Error
import Recordgen.Store.Path

/-! # Stores in memory

A store in memory holds directories and files by path. Paths are compared by their parts, which the
plain spelling of a path tells, and a file keeps the spelling under which it was written first.
-/

namespace Recordgen

/-- A store in memory. -/
structure MemoryStore where
  /-- The directories, in plain spelling. -/
  directories : List String := []
  /-- The files, by path. -/
  files : List (String × String) := []
  deriving DecidableEq, Repr

/-- Sets the contents of a file. -/
def setFile (path contents : String) (files : List (String × String)) : List (String × String) :=
  go (Path.parts path) files
where
  /-- Sets the contents of the file with the given parts. -/
  go (parts : List String) : List (String × String) → List (String × String)
    | [] => [(path, contents)]
    | file :: rest =>
      if Path.parts file.1 = parts then (file.1, contents) :: rest else file :: go parts rest

namespace MemoryStore

/-- The contents of a file. -/
def get? (store : MemoryStore) (path : String) : Option String :=
  let parts := Path.parts path
  (store.files.find? fun file => Path.parts file.1 = parts).map Prod.snd

/-- Whether there is a file or a directory at a path. -/
def contains (store : MemoryStore) (path : String) : Bool :=
  (store.get? path).isSome || store.directories.contains (Path.plain path)

/-- The contents of a file that must be there. -/
def read (store : MemoryStore) (path : String) : Except CompileError String :=
  match store.get? path with
  | some contents => .ok contents
  | none => .error (.storage (.noArtifact path))

/-- Adds a directory, unless it is there. -/
def addDirectory (store : MemoryStore) (plain : String) : MemoryStore :=
  if store.directories.contains plain then store
  else { store with directories := store.directories ++ [plain] }

/-- The directories on the way to a directory, itself included, in plain spelling. -/
def stages (path : String) : List String :=
  let parts := Path.parts path
  (List.range parts.length).map fun count => Path.ofParts (parts.take (count + 1))

/-- Adds a directory and all directories above it. -/
def ensureDirectory (store : MemoryStore) (path : String) : MemoryStore :=
  (stages path).foldl addDirectory store

/-- Writes a file and adds the directories above it. -/
def write (store : MemoryStore) (path contents : String) : MemoryStore :=
  let store := match Path.parent? path with
    | some parent => store.ensureDirectory parent
    | none => store
  { store with files := setFile path contents store.files }

end MemoryStore

end Recordgen
