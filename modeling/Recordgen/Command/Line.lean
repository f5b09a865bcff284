import Recordgen.OptionsFile

/-! # The command line

The program has one command, `compile`, whose flags take a value each. Arguments are read from left
to right. The value of a flag is checked when the next flag begins or the line ends, and the first
fault on the line decides.
-/

namespace Recordgen

/-- The flags of the command. -/
inductive Flag where
  | specification
  | targetNamespace
  | output
  | config
  | report
  | logFormat
  deriving DecidableEq, Repr

namespace Flag

/-- The flag with the given name. -/
def ofName? : String → Option Flag
  | "spec" => some specification
  | "namespace" => some targetNamespace
  | "out" => some output
  | "config" => some config
  | "report" => some report
  | "log-format" => some logFormat
  | _ => none

/-- Whether a flag takes a value: paths are not empty, and there are two log formats. -/
def accepts : Flag → String → Bool
  | targetNamespace, _ => true
  | logFormat, value => value = "text" || value = "json"
  | _, value => value ≠ ""

end Flag

/-- What a command line asks for. -/
inductive Invocation where
  /-- To be told how the program is used, or its version. -/
  | information
  /-- Nothing that the program understands. -/
  | refused
  /-- To compile with the given flags. -/
  | compile (flags : List (Flag × String))
  deriving DecidableEq, Repr

/-- An argument of the command line. -/
inductive LineArgument where
  /-- The two dashes after which no flag follows. -/
  | divider
  /-- A flag by its name, with the value attached to it. -/
  | long (name : String) (value : Option String)
  /-- A flag by its letter, and what follows the letter. -/
  | short (letter : Char)
  | value (text : String)
  deriving DecidableEq, Repr

namespace LineArgument

/-- Divides a flag at its first equals sign. -/
def longFlag (text : List Char) : LineArgument :=
  let name := text.takeWhile (· ≠ '=')
  match text.dropWhile (· ≠ '=') with
  | _ :: attached => .long (String.ofList name) (some (String.ofList attached))
  | [] => .long (String.ofList name) none

/-- The argument that a text is. A single dash is a value. -/
def ofString (text : String) : LineArgument :=
  match text.toList with
  | ['-', '-'] => divider
  | '-' :: '-' :: rest => longFlag rest
  | '-' :: letter :: _ => short letter
  | _ => value text

end LineArgument

/-- What has been read of a line: the flags with their values, and the flag that is still open, with
its value if that has come. -/
structure LineState where
  given : List (Flag × String) := []
  pending : Option (Flag × Option String) := none

namespace LineState

/-- Adds a flag, which must take the value and must not be there. -/
def add? (given : List (Flag × String)) (flag : Flag) (value : String) :
    Option (List (Flag × String)) :=
  if flag.accepts value && (given.lookup flag).isNone then some (given ++ [(flag, value)])
  else none

/-- Closes the open flag. -/
def settle? (state : LineState) : Option (List (Flag × String)) :=
  match state.pending with
  | none => some state.given
  | some (_, none) => none
  | some (flag, some value) => add? state.given flag value

/-- What the flags of the command ask for. -/
def invocation (state : LineState) : Invocation :=
  match state.settle? with
  | some given => .compile given
  | none => .refused

/-- What a request for information comes to; a fault before it counts more. -/
def information (state : LineState) : Invocation :=
  match state.settle? with
  | some _ => .information
  | none => .refused

/-- Reads a flag of the command. -/
def readFlag? (state : LineState) (flag : Flag) (value : Option String) : Option LineState := do
  let given ← state.settle?
  match value with
  | some value => return { given := ← add? given flag value }
  | none => return { given := given, pending := some (flag, none) }

/-- Reads a value, which must belong to the open flag. -/
def readValue? (state : LineState) (text : String) : Option LineState :=
  match state.pending with
  | some (flag, none) => some { state with pending := some (flag, some text) }
  | _ => none

/-- Reads the arguments of the command. -/
def readArguments : LineState → List String → Invocation
  | state, [] => state.invocation
  | state, argument :: rest =>
    match LineArgument.ofString argument with
    | .divider => if rest.isEmpty then state.invocation else .refused
    | .long "help" none => state.information
    | .short 'h' => state.information
    | .short _ => .refused
    | .long name value =>
      match (Flag.ofName? name).bind fun flag => state.readFlag? flag value with
      | some state => state.readArguments rest
      | none => .refused
    | .value text =>
      match state.readValue? text with
      | some state => state.readArguments rest
      | none => .refused

end LineState

/-- What a request for help about commands comes to. -/
def helpInvocation : List String → Invocation
  | [] | ["compile"] | ["help"] => .information
  | _ => .refused

/-- What a command line asks for. -/
def Invocation.ofArguments : List String → Invocation
  | [] => .refused
  | "compile" :: rest => LineState.readArguments {} rest
  | "help" :: rest => helpInvocation rest
  | argument :: _ =>
    match LineArgument.ofString argument with
    | .long "help" none | .long "version" none | .short 'h' | .short 'V' => .information
    | _ => .refused

end Recordgen
