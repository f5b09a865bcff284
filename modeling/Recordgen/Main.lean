import Recordgen.Command.Run

/-! # The program

The only module with effects: it gives the command the files of the system, prints what there is to
say, and ends with the exit code of the outcome.
-/

namespace Recordgen

/-- The number of a system error, which some operations report with the opposite sign. -/
def errorNumber (code : UInt32) : Nat :=
  min code.toNat (0 - code).toNat

/-- The fault that an error of the system stands for. -/
def storageFault : IO.Error → StorageFault
  | .noFileOrDirectory _ _ _ => .notFound
  | .alreadyExists _ _ _ => .alreadyExists
  | .resourceBusy _ _ => .inUse
  | .inappropriateType _ code details =>
    if errorNumber code = 20 then .notADirectory
    else if errorNumber code = 21 then .isADirectory
    else .other s!"{details} (os error {errorNumber code})"
  | .invalidArgument _ code details =>
    if errorNumber code = 36 then .nameTooLong
    else if errorNumber code = 22 then .nulInPath
    else .other s!"{details} (os error {errorNumber code})"
  | error => .other error.toString

/-- An operation of the system, with its error as a value. -/
def attemptIO {α : Type} (operation : IO α) : IO (Except StorageFault α) := do
  match ← operation.toBaseIO with
  | .ok value => return .ok value
  | .error error => return .error (storageFault error)

/-- Whether a path leads to anything. -/
def leadsSomewhere (path : String) : IO Bool := do
  match ← (IO.FS.realPath path).toBaseIO with
  | .ok _ => return true
  | .error _ => return false

/-- The files of the system. -/
def systemFiles : FileSystem IO where
  read path := attemptIO (IO.FS.readFile path)
  isPresent := leadsSomewhere
  isDirectory path := leadsSomewhere (path ++ "/.")
  makeDirectory path := attemptIO (IO.FS.createDir path)
  writeFile path contents := attemptIO (IO.FS.writeFile path contents)
  rename source target := attemptIO (IO.FS.rename source target)

/-- How the program is used. -/
def usage : String :=
  "Usage: synthforge compile [--spec XML] [--namespace NAMESPACE] [--out DIR]\n" ++
    "         [--config TOML] [--report JSON] [--log-format text|json]"

end Recordgen

open Recordgen in
/-- Runs the command line. -/
def main (arguments : List String) : IO UInt32 := do
  let invocation := Invocation.ofArguments arguments
  match invocation with
  | .information => IO.println usage
  | .refused => IO.eprintln usage
  | .compile _ => pure ()
  let outcome ← systemFiles.runInvocation invocation
  if let some message := outcome.message? then
    IO.eprintln s!"error: {message}"
  return outcome.exitCode.toUInt32
