import Recordgen.Text.Split

/-! # Paths

A path is a text whose segments are divided by `/`. Two spellings denote the same path when they
have the same parts: repeated and final slashes and segments `.` inside do not count, a `.` at the
start does.
-/

namespace Recordgen.Path

/-- The segments between the slashes. -/
def segments (path : String) : List String :=
  (Text.splitAtChar '/' path.toList).map String.ofList

/-- Whether a path starts at the root. -/
def isAbsolute (path : String) : Bool :=
  path.toList.head? = some '/'

/-- Whether a segment counts as a part wherever it stands. -/
def isPart (segment : String) : Bool :=
  segment ≠ "" && segment ≠ "."

/-- How a path starts, and the segments that follow. -/
def start (path : String) : List String × List String :=
  match segments path with
  | "" :: segment :: rest => (["/"], segment :: rest)
  | "." :: rest => (["."], rest)
  | all => ([], all)

/-- The parts of a path. The root is a part of its own, written `/`. -/
def parts (path : String) : List String :=
  let (first, rest) := start path
  first ++ rest.filter isPart

/-- Puts segments behind a start. -/
def assemble (first : List String) (rest : List String) : String :=
  match first, rest with
  | ["/"], rest => "/" ++ "/".intercalate rest
  | first, rest => "/".intercalate (first ++ rest)

/-- The path with the given parts. -/
def ofParts : List String → String
  | "/" :: rest => assemble ["/"] rest
  | rest => assemble [] rest

/-- The plain spelling of a path, which is the same for paths with the same parts. -/
def plain (path : String) : String :=
  ofParts (parts path)

/-- The path `path` seen from the directory `base`. -/
def join (base path : String) : String :=
  if isAbsolute path || base = "" then path
  else if base.toList.getLast? = some '/' then base ++ path
  else base ++ "/" ++ path

/-- Leaves the segments at the end out that are no parts. -/
def trimEnd (rest : List String) : List String :=
  (rest.reverse.dropWhile fun segment => !isPart segment).reverse

/-- The directory that holds a path. The root and the empty path have none. -/
def parent? (path : String) : Option String :=
  let (first, rest) := start path
  match trimEnd rest with
  | [] => if first = ["."] then some "" else none
  | rest => some (assemble first (trimEnd rest.dropLast))

/-- The name at the end of a path, if there is one. -/
def fileName? (path : String) : Option String :=
  match (trimEnd (start path).2).getLast? with
  | some ".." => none
  | name => name

/-- The directories above a path, from the inside out, each as often as it is spelled; the root and
the empty path are left out. -/
def above (path : String) : List String :=
  let (first, rest) := start path
  go first (trimEnd rest).dropLast.reverse
where
  /-- The directories given by reversed segments. -/
  go (first : List String) : List String → List String
    | [] => if first = ["."] then ["."] else []
    | segment :: outer =>
      if isPart segment then assemble first (segment :: outer).reverse :: go first outer
      else go first outer

end Recordgen.Path
