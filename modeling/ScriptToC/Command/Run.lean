/-
  ScriptToC.Command.Run — a run of the command: what it prints, what it logs, and how it ends.

  Flags and the environment decide about the log alone. The exit code and what is printed depend
  on the script only.
-/

import ScriptToC.Command.Folder
import ScriptToC.Command.Settings
import ScriptToC.Compile

namespace ScriptToC.Command

def version : String := "0.1.0"

def title : String := "py2c " ++ version ++ "\n"

def usage : String := "USAGE:\n    py2c [OPTIONS] <input>\n"

def help : String :=
  title ++ "A translator from a small Python-like language to C-like source\n\n" ++ usage ++
    "\nARGS:\n" ++
    "    <input>    Source file to translate, or '-' for standard input\n" ++
    "\nOPTIONS:\n" ++
    "    -h, --help       Print help information\n" ++
    "    -q, --quiet      Disable logging\n" ++
    "    -v, --verbose    Log each pipeline stage\n" ++
    "    -V, --version    Print version information\n"

/-- The log comes in the order of the events, ahead of the error that ends a run. -/
structure Report where
  exitCode : Nat
  output : String
  errors : String
  log : List Event

def failed (exitCode : Nat) (message : String) (log : List Event) : Report :=
  ⟨exitCode, "", "Error: " ++ message ++ "\n", log⟩

def Refusal.text : Refusal → String
  | .helpWanted | .versionWanted => ""
  | .unknownArgument => "Found an argument which wasn't expected"
  | .valueNotTaken => "A flag was given a value"
  | .flagsExclude => "The argument '--quiet' cannot be used with '--verbose'"
  | .pathMissing => "The following required arguments were not provided:\n    <input>"
  | .flagRepeated => "A flag was provided more than once"

def Refusal.report : Refusal → Report
  | .helpWanted => ⟨0, help, "", []⟩
  | .versionWanted => ⟨0, title, "", []⟩
  | r => ⟨2, "", "error: " ++ r.text ++ "\n\n" ++ usage ++ "\nFor more information try --help\n", []⟩

def Fault.report : Fault → Report
  | .refused r => r.report
  | .badLevel text => failed 2 (badLevelMessage text) []

def Input.text : Input → String
  | .standardInput => "standard input"
  | .file path => "'" ++ path ++ "'"

/-- Bytes that are UTF-8 are a text. -/
def decode (bytes : ByteArray) : Except ReadFailure String :=
  match String.fromUTF8? bytes with
  | some text => .ok text
  | none => .error .notText

/-- A run with a script that could be read. -/
def compileReport (level : LogLevel) (script : String) : Report :=
  let compiled := compile script
  let log := compiled.events.filter level.shows
  match compiled.result with
  | .ok code => ⟨0, code ++ "\n", "", log⟩
  | .error e => failed 1 e.message log

/-- A run behind the reading of its input. -/
def Settings.report (settings : Settings) (contents : Except ReadFailure ByteArray) : Report :=
  match contents >>= decode with
  | .error e => failed 1 ("Cannot read " ++ settings.input.text ++ ": " ++ e.text) []
  | .ok script => compileReport settings.level script

/-- A whole run. `contents` is what can be read of each input. -/
def run (args : List String) (levelText : Option String) (contents : Input → Except ReadFailure ByteArray) :
    Report :=
  match Settings.ofCommandLine args levelText with
  | .error fault => fault.report
  | .ok settings => settings.report (contents settings.input)

end ScriptToC.Command
