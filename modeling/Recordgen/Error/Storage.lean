/-! # What can go wrong with files -/

namespace Recordgen

/-- Why a file or a directory could not be read or written. -/
inductive StorageFault where
  | notFound
  | alreadyExists
  | notADirectory
  | isADirectory
  /-- A name or a path has too many bytes. -/
  | nameTooLong
  /-- A path ends in a directory that is in use. -/
  | inUse
  /-- No path has a NUL in it. -/
  | nulInPath
  /-- A store in memory holds nothing at the path. -/
  | noArtifact (path : String)
  /-- Any other fault, in the words of the system. -/
  | other (text : String)
  deriving DecidableEq, Repr

/-- The wording of a storage fault. -/
def StorageFault.message : StorageFault → String
  | notFound => "No such file or directory (os error 2)"
  | alreadyExists => "File exists (os error 17)"
  | notADirectory => "Not a directory (os error 20)"
  | isADirectory => "Is a directory (os error 21)"
  | nameTooLong => "File name too long (os error 36)"
  | inUse => "Device or resource busy (os error 16)"
  | nulInPath => "file name contained an unexpected NUL byte"
  | noArtifact path => s!"no artifact at '{path}'"
  | other text => text

/-- Why compile options cannot be honoured. -/
inductive OptionFault where
  | badNamespace (text : String)
  | emptyOutput
  /-- A path without a file name at its end. -/
  | badArtifactPath (path : String)
  deriving DecidableEq, Repr

/-- The wording of an option fault. -/
def OptionFault.message : OptionFault → String
  | badNamespace text => s!"target namespace '{text}' is not a valid C++ namespace"
  | emptyOutput => "output base path must not be empty"
  | badArtifactPath path => s!"invalid artifact path '{path}'"

end Recordgen
