/-
  ScriptToC.Command.Arguments — the arguments of the command line.

  They are read from left to right, and the first fault or wish for help ends the reading. What
  concerns all of them together is looked at afterwards, in the order of `Arguments.path`.
-/

namespace ScriptToC.Command

/-- Why a command line is not one that compiles a script. -/
inductive Refusal
  | helpWanted
  | versionWanted
  | unknownArgument
  | valueNotTaken
  | flagsExclude
  | pathMissing
  | flagRepeated
  deriving DecidableEq, Repr

inductive Flag
  | help
  | version
  | verbose
  | quiet
  deriving DecidableEq, Repr

def Flag.ofLetter? : Char → Option Flag
  | 'h' => some .help
  | 'V' => some .version
  | 'v' => some .verbose
  | 'q' => some .quiet
  | _ => none

def Flag.ofName? : String → Option Flag
  | "help" => some .help
  | "version" => some .version
  | "verbose" => some .verbose
  | "quiet" => some .quiet
  | _ => none

/-- The path of the script, and how often each flag was given. -/
structure Arguments where
  path? : Option String
  verbose : Nat
  quiet : Nat
  deriving DecidableEq, Repr

namespace Arguments

def empty : Arguments := ⟨none, 0, 0⟩

def withFlag (a : Arguments) : Flag → Except Refusal Arguments
  | .help => .error .helpWanted
  | .version => .error .versionWanted
  | .verbose => .ok { a with verbose := a.verbose + 1 }
  | .quiet => .ok { a with quiet := a.quiet + 1 }

def withLetter (a : Arguments) (c : Char) : Except Refusal Arguments :=
  match Flag.ofLetter? c with
  | some flag => a.withFlag flag
  | none => .error .unknownArgument

/-- What follows `--`: a name, and perhaps a value, which no flag takes. -/
def withLong (a : Arguments) (text : List Char) : Except Refusal Arguments :=
  let name := text.takeWhile (· ≠ '=')
  match Flag.ofName? (String.ofList name) with
  | some flag => if name = text then a.withFlag flag else .error .valueNotTaken
  | none => .error .unknownArgument

/-- There is one script. -/
def withPath (a : Arguments) (path : String) : Except Refusal Arguments :=
  if a.path?.isSome then .error .unknownArgument else .ok { a with path? := some path }

/-- A lone `-` is a path, and several letters behind a `-` are as many flags. -/
def withArgument (a : Arguments) (argument : String) : Except Refusal Arguments :=
  match argument.toList with
  | '-' :: '-' :: text => a.withLong text
  | '-' :: c :: letters => (c :: letters).foldlM withLetter a
  | _ => a.withPath argument

/-- All that follows a lone `--` are paths. -/
def withAll (a : Arguments) : List String → Except Refusal Arguments
  | [] => .ok a
  | "--" :: paths => paths.foldlM withPath a
  | argument :: rest => do (← a.withArgument argument).withAll rest

/-- The path, if the arguments as a whole make sense. -/
def path (a : Arguments) : Except Refusal String :=
  if 0 < a.verbose && 0 < a.quiet then .error .flagsExclude
  else
    match a.path? with
    | none => .error .pathMissing
    | some path => if 1 < a.verbose || 1 < a.quiet then .error .flagRepeated else .ok path

end Arguments

end ScriptToC.Command
