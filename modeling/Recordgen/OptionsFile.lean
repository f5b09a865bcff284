import Recordgen.Options
import Recordgen.Store.Path
import Recordgen.Toml.Document

/-! # Options files

Options come from flags or from an options file; flags win. Paths in a file are relative to the file
itself.
-/

namespace Recordgen

/-- Options that may be left open. -/
structure PartialOptions where
  specification : Option String := none
  targetNamespace : Option String := none
  output : Option String := none
  deriving DecidableEq, Repr

/-- Why a command fails, apart from what is wrong with its flags. -/
inductive CommandError where
  | compile (fault : CompileError)
  /-- An option is neither among the flags nor in the options file. -/
  | missingOption (flag key : String)
  /-- The options file cannot be read. -/
  | unreadable (fault : StorageFault)
  /-- The options file is malformed. -/
  | malformedFile
  deriving DecidableEq, Repr

/-- The wording of a missing option. -/
def missingOptionMessage (flag key : String) : String :=
  s!"{flag} is required (or set '{key}' in the options file)"

/-- The wording of a command error. -/
def CommandError.message : CommandError → String
  | compile fault => fault.message
  | missingOption flag key => s!"invalid configuration: {missingOptionMessage flag key}"
  | unreadable fault => s!"io error: {fault.message}"
  | malformedFile => "options file error"

namespace PartialOptions

/-- The keys of an options file. -/
def keys : List String :=
  ["specification_path", "target_namespace", "output_base_path"]

/-- The options that entries give. There must be no other key, and no key twice. -/
def ofEntries? (entries : List (String × String)) : Option PartialOptions :=
  if (entries.map Prod.fst).all keys.contains && (entries.map Prod.fst).Nodup then
    some
      { specification := entries.lookup "specification_path"
        targetNamespace := entries.lookup "target_namespace"
        output := entries.lookup "output_base_path" }
  else none

/-- Reads the text of an options file. -/
def parse? (text : String) : Option PartialOptions :=
  (Toml.parse? text).bind ofEntries?

/-- Takes paths relative to the directory of a file. -/
def besideFile (options : PartialOptions) (path : String) : PartialOptions :=
  let base := (Path.parent? path).getD ""
  { options with
    specification := options.specification.map (Path.join base)
    output := options.output.map (Path.join base) }

/-- An option from the flags or else from the file. -/
def choose (given stored : Option String) (flag key : String) : Except CommandError String :=
  match given.or stored with
  | some value => .ok value
  | none => .error (.missingOption flag key)

/-- Puts flags and file together. Every option must come from one of them. -/
def merge (file flags : PartialOptions) : Except CommandError CompileOptions := do
  let specification ←
    choose flags.specification file.specification "--spec" "specification_path"
  let targetNamespace ←
    choose flags.targetNamespace file.targetNamespace "--namespace" "target_namespace"
  let output ← choose flags.output file.output "--out" "output_base_path"
  return { specification, targetNamespace, output }

end PartialOptions

end Recordgen
