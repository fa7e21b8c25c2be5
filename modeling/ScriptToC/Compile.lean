/-
  ScriptToC.Compile — from the text of a script to the text of its code.

  A text is rejected for its first lexeme that is no token, and otherwise for the first token that
  no program has there. Each stage tells what it did once it is done, so a stage that fails tells
  nothing.
-/

import ScriptToC.Code.OfProgram
import ScriptToC.Event
import ScriptToC.Program.Read

namespace ScriptToC

inductive Rejection
  | lexeme (e : BadLexeme)
  | token (e : Unexpected)
  deriving DecidableEq, Repr

def Rejection.message : Rejection → String
  | .lexeme e => e.message
  | .token e => e.message

structure Compiled where
  result : Except Rejection String
  events : List Event

/-- What is told while code is written. -/
def Code.events (code : Code) : List Event :=
  code.declarations.map Event.declaring ++ [.generated code.text.utf8ByteSize]

def compile (script : String) : Compiled :=
  match Lexed.ofString script with
  | .error e => ⟨.error (.lexeme e), []⟩
  | .ok lexed =>
    let lexedEvent := Event.lexed lexed.tokens.length lexed.layout.depths.length
    match Program.ofTokens (some lexed.layout) lexed.tokens with
    | .error e => ⟨.error (.token e), [lexedEvent]⟩
    | .ok program =>
      let code := Code.ofProgram program
      ⟨.ok code.text, lexedEvent :: .parsed program.length :: code.events⟩

theorem compile_result_eq_ok {script text : String} :
    (compile script).result = .ok text ↔ ∃ lexed program, Lexed.ofString script = .ok lexed ∧
      Program.ofTokens (some lexed.layout) lexed.tokens = .ok program ∧ (Code.ofProgram program).text = text := by
  unfold compile
  cases Lexed.ofString script with
  | error e => simp
  | ok lexed => cases hp : Program.ofTokens (some lexed.layout) lexed.tokens <;> simp [hp]

/-- The program that a script is read as. -/
def ReadsAs (script : String) (p : Program) : Prop :=
  ∃ lexed, Lexed.ofString script = .ok lexed ∧ Program.ofTokens (some lexed.layout) lexed.tokens = .ok p

theorem compile_eq_ok_iff_readsAs {script text : String} :
    (compile script).result = .ok text ↔ ∃ p, ReadsAs script p ∧ text = (Code.ofProgram p).text := by
  rw [compile_result_eq_ok]
  constructor
  · rintro ⟨lexed, p, hlex, hp, rfl⟩
    exact ⟨p, ⟨lexed, hlex, hp⟩, rfl⟩
  · rintro ⟨p, ⟨lexed, hlex, hp⟩, rfl⟩
    exact ⟨lexed, p, hlex, hp, rfl⟩

end ScriptToC
