/-
  ScriptToC.Main — the command itself: it reads the input, and prints what the run reports.
-/

import ScriptToC.Command.Run

open ScriptToC ScriptToC.Command

/-- The failure behind an error of the system, told by its number. -/
def readFailureOfNumber (number : Nat) (text : String) : ReadFailure :=
  match number with
  | 2 => .missing
  | 13 => .forbidden
  | 20 => .notFolder
  | 21 => .isFolder
  | 36 => .nameTooLong
  | _ => .other (text ++ " (os error " ++ Nat.repr number ++ ")")

/-- Numbers of errors may come with their sign turned. -/
def errorNumber (code : UInt32) : Nat :=
  if code.toNat < 0x80000000 then code.toNat else 0x100000000 - code.toNat

def readFailureOfError : IO.Error → ReadFailure
  | .noFileOrDirectory _ code text | .permissionDenied _ code text | .inappropriateType _ code text
  | .invalidArgument _ code text | .resourceExhausted _ code text | .noSuchThing _ code text
  | .otherError code text | .hardwareFault code text | .illegalOperation code text =>
    readFailureOfNumber (errorNumber code) text
  | e => .other (toString e)

def readInput (input : Input) : IO (Except ReadFailure ByteArray) := do
  try
    match input with
    | .standardInput => return .ok (← (← IO.getStdin).readBinToEnd)
    | .file path => return .ok (← IO.FS.readBinFile path)
  catch e => return .error (readFailureOfError e)

def printReport (r : Report) : IO UInt32 := do
  for e in r.log do
    IO.eprintln ("[" ++ e.level.name ++ "] " ++ e.text)
  IO.eprint r.errors
  IO.print r.output
  return r.exitCode.toUInt32

def main (args : List String) : IO UInt32 := do
  match Settings.ofCommandLine args (← IO.getEnv levelVariable) with
  | .error fault => printReport fault.report
  | .ok settings => printReport (settings.report (← readInput settings.input))
