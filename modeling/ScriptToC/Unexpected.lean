/-
  ScriptToC.Unexpected — what was wanted where the tokens stop being a program, and the message
  for it.
-/

import ScriptToC.Token

namespace ScriptToC

inductive Expectation
  | expression
  | separator
  | elseBranch
  | closingParen
  | functionName
  | parameterList
  | parameterName
  | parameterListEnd
  | bodyColon
  /-- The body of a function on a line of its own, not indented deeper than its `def`. -/
  | indentedBody
  /-- A second line below a `def`, indented like a body, though the body is over. -/
  | statementBelowBody
  deriving DecidableEq, Repr

def Expectation.text : Expectation → String
  | .expression => "expression"
  | .separator => "';' or newline"
  | .elseBranch => "'else' in conditional expression"
  | .closingParen => "')' to close '('"
  | .functionName => "function name after 'def'"
  | .parameterList => "'(' after function name"
  | .parameterName => "parameter name"
  | .parameterListEnd => "')' after parameters"
  | .bodyColon => "':' after parameter list"
  | .indentedBody => "indented function body"
  | .statementBelowBody => "statement at the indentation of 'def'"

/-- The first token that no program has there; none stands for the end. Positions count from zero. -/
structure Unexpected where
  expected : Expectation
  found : Option Token
  position : Nat
  deriving DecidableEq, Repr

def Unexpected.foundText (u : Unexpected) : String :=
  match u.found with
  | none => "end of input"
  | some token =>
    if u.expected = .statementBelowBody then "indented " ++ token.describe else token.describe

/-- The line that reports a wrong token, from the three things it tells. -/
def unexpectedMessage (expected found : String) (position : Nat) : String :=
  "Syntax error at token " ++ Nat.repr position ++ ": expected " ++ expected ++ ", found " ++ found

def Unexpected.message (u : Unexpected) : String :=
  unexpectedMessage u.expected.text u.foundText u.position

end ScriptToC
