import Recordgen.Command.Line
import Recordgen.Compilation
import Recordgen.Report.Json
import Recordgen.Store.FileSystem

/-! # Running the command

The command reads the options file, puts flags and file together, compiles, and writes the report
where it is asked to.
-/

namespace Recordgen

variable {m : Type → Type} [Monad m]

/-- Compiles the document that options name. The options are checked before it is read. -/
def compileOptions (read : (path : String) → ExceptT CompileError m String) (sink : Sink m)
    (options : CompileOptions) : ExceptT CompileError m Report := do
  ExceptT.mk (pure options.validate)
  let text ← read options.specification
  compileDocument sink options.targetNamespace text

namespace FileSystem

/-- Compiles from files to files. -/
def compile (files : FileSystem m) (options : CompileOptions) : ExceptT CompileError m Report :=
  compileOptions files.readText (files.sink options.output) options

/-- Reads an options file. -/
def readOptions (files : FileSystem m) (path : String) :
    ExceptT CommandError m PartialOptions := do
  match ← files.read path with
  | .error fault => throw (.unreadable fault)
  | .ok text =>
    match PartialOptions.parse? text with
    | some options => return options.besideFile path
    | none => throw .malformedFile

/-- The options that flags and the options file give together. -/
def mergedOptions (files : FileSystem m) (config : Option String) (flags : PartialOptions) :
    ExceptT CommandError m CompileOptions := do
  let file ← match config with
    | some path => files.readOptions path
    | none => pure {}
  ExceptT.mk (pure (PartialOptions.merge file flags))

/-- Part of a compile run as part of a command. -/
def asCommand {α : Type} (run : ExceptT CompileError m α) : ExceptT CommandError m α :=
  ExceptT.mk (Except.mapError CommandError.compile <$> run.run)

/-- Runs the command with the given flags. -/
def runFlags (files : FileSystem m) (flags : List (Flag × String)) :
    ExceptT CommandError m Unit := do
  let options ← files.mergedOptions (flags.lookup .config)
    { specification := flags.lookup .specification
      targetNamespace := flags.lookup .targetNamespace
      output := flags.lookup .output }
  let report ← asCommand (files.compile options)
  if let some path := flags.lookup .report then
    asCommand (files.replaceFile path report.print)

end FileSystem

/-- How the program ends. -/
inductive Outcome where
  /-- All went well, or information was asked for. -/
  | success
  | failure (fault : CommandError)
  /-- The command line was not understood. -/
  | misuse
  deriving DecidableEq, Repr

namespace Outcome

/-- The exit code. -/
def exitCode : Outcome → Nat
  | success => 0
  | failure _ => 1
  | misuse => 2

/-- The message of a failure. -/
def message? : Outcome → Option String
  | failure fault => some fault.message
  | _ => none

end Outcome

/-- Runs a command line. -/
def FileSystem.runInvocation (files : FileSystem m) : Invocation → m Outcome
  | .information => pure .success
  | .refused => pure .misuse
  | .compile flags => do
    match ← (files.runFlags flags).run with
    | .ok _ => pure .success
    | .error fault => pure (.failure fault)

end Recordgen
