/-
  ScriptToC.Command.Settings — what the command line and the environment ask for.

  The level of the log is the one that the environment names, whatever the flags say.
-/

import ScriptToC.Command.Arguments
import ScriptToC.Event
import ScriptToC.Text.WhiteSpace

namespace ScriptToC

/-- The level with this name, in capitals or not, between white space. -/
def LogLevel.ofText? (text : String) : Option LogLevel :=
  match String.ofList ((Text.trim text.toList).map Char.toLower) with
  | "off" => some .off
  | "error" => some .error
  | "warn" => some .warn
  | "info" => some .info
  | "debug" => some .debug
  | "trace" => some .trace
  | _ => none

namespace Command

inductive Input
  | standardInput
  | file (path : String)
  deriving DecidableEq, Repr

def Input.ofPath (path : String) : Input := if path = "-" then .standardInput else .file path

structure Settings where
  input : Input
  level : LogLevel
  deriving DecidableEq, Repr

inductive Fault
  | refused (r : Refusal)
  /-- The environment names no level. -/
  | badLevel (text : String)
  deriving DecidableEq, Repr

def levelVariable : String := "PY2C_LOG"

def badLevelMessage (text : String) : String := "Invalid " ++ levelVariable ++ " value '" ++ text ++ "'"

def levelOfFlags (a : Arguments) : LogLevel :=
  if 0 < a.verbose then .debug else if 0 < a.quiet then .off else .warn

/-- `levelText` is the value of the variable, if it is set. -/
def chooseLevel (a : Arguments) (levelText : Option String) : Except Fault LogLevel :=
  match levelText with
  | none => .ok (levelOfFlags a)
  | some text =>
    match LogLevel.ofText? text with
    | some level => .ok level
    | none => .error (.badLevel text)

def readArguments (args : List String) : Except Refusal (Arguments × String) := do
  let a ← Arguments.empty.withAll args
  let path ← a.path
  return (a, path)

/-- The arguments are looked at before the environment. -/
def Settings.ofCommandLine (args : List String) (levelText : Option String) : Except Fault Settings :=
  match readArguments args with
  | .error r => .error (.refused r)
  | .ok (a, path) => do
    let level ← chooseLevel a levelText
    return ⟨.ofPath path, level⟩

end Command

end ScriptToC
