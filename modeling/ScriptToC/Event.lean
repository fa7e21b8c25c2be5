/-
  ScriptToC.Event — what the compiler tells about its work, and to whom it matters.
-/

namespace ScriptToC

/-- How much is told: each level tells what the ones before it tell, and more. -/
inductive LogLevel
  | off
  | error
  | warn
  | info
  | debug
  | trace
  deriving DecidableEq, Repr

def LogLevel.rank : LogLevel → Nat
  | .off => 0
  | .error => 1
  | .warn => 2
  | .info => 3
  | .debug => 4
  | .trace => 5

def LogLevel.name : LogLevel → String
  | .off => "OFF"
  | .error => "ERROR"
  | .warn => "WARN"
  | .info => "INFO"
  | .debug => "DEBUG"
  | .trace => "TRACE"

inductive Event
  | lexed (tokens lines : Nat)
  | parsed (statements : Nat)
  | declaring (name : String)
  | generated (bytes : Nat)
  deriving DecidableEq, Repr

def Event.level : Event → LogLevel
  | .declaring _ => .trace
  | .lexed .. | .parsed _ | .generated _ => .debug

def Event.text : Event → String
  | .lexed tokens lines => "lexed " ++ Nat.repr tokens ++ " tokens over " ++ Nat.repr lines ++ " lines"
  | .parsed n => "parsed " ++ Nat.repr n ++ " top-level statements"
  | .declaring x => "declaring '" ++ x ++ "'"
  | .generated n => "generated " ++ Nat.repr n ++ " bytes of output"

/-- What a log has of the event. -/
def Event.record (e : Event) : LogLevel × String := (e.level, e.text)

/-- Whether a log at this level shows the event. -/
def LogLevel.shows (level : LogLevel) (e : Event) : Bool := e.level.rank ≤ level.rank

/-- The finest level shows everything, the next one all but the declarations, and the others nothing. -/
theorem LogLevel.shows_iff {level : LogLevel} {e : Event} :
    level.shows e = true ↔ level = .trace ∨ level = .debug ∧ ∀ x, e ≠ .declaring x := by
  cases level <;> cases e <;> simp [LogLevel.shows, Event.level, LogLevel.rank]

end ScriptToC
