/-
  ScriptToC.Program.Read — statements and programs read from tokens.

  A script shows by indentation what belongs to a function whose body stands on a line of its own.
  The grammar knows no indentation, and a body is one statement. So a layout is only checked: the
  body has to be deeper than its `def`, and the next line below the body must not be. Without a
  layout every program of the grammar is read.
-/

import ScriptToC.Expr.Read
import ScriptToC.Program

namespace ScriptToC

/-! ## Functions -/

/-- The names of a parameter list, and the parenthesis that closes it. -/
def readNames (c : Cursor) : Reading (List String) c := do
  let ⟨x, c₁, h₁⟩ ← c.expectName .parameterName
  match c₁.take? (.mark .comma) with
  | some ⟨_, c₂, h₂⟩ =>
    let ⟨xs, c₃, h₃⟩ ← readNames c₂
    return ⟨x :: xs, c₃, by omega⟩
  | none =>
    let ⟨_, c₂, h₂⟩ ← c₁.expect (.mark .closeParen) .parameterListEnd
    return ⟨[x], c₂, by omega⟩
termination_by c.rest.length

def readParameters (c : Cursor) : Reading (List String) c :=
  match c.take? (.mark .closeParen) with
  | some ⟨_, c₁, h₁⟩ => return ⟨[], c₁, h₁⟩
  | none => readNames c

/-- The name of a function, its parameters and the colon, which follow `def`. -/
def readHead (c : Cursor) : Reading (String × List String) c := do
  let ⟨name, c₁, h₁⟩ ← c.expectName .functionName
  let ⟨_, c₂, h₂⟩ ← c₁.expect (.mark .openParen) .parameterList
  let ⟨params, c₃, h₃⟩ ← readParameters c₂
  let ⟨_, c₄, h₄⟩ ← c₃.expect (.mark .colon) .bodyColon
  return ⟨(name, params), c₄, by omega⟩

/-! ## Indentation -/

/-- Whether a body on a line of its own may start at `start`, where `head` is at its `def`. -/
def bodyMayStart (layout : Option Layout) (head start : Cursor) : Bool :=
  start.atEnd || layout.all fun l => head.depth l < start.depth l

/-- Whether a body that started on a line of its own may end at `stop`. What follows on the line of
    its end is not looked at. -/
def bodyMayEnd (layout : Option Layout) (head stop : Cursor) : Bool :=
  let below := stop.skipBreaks
  below.line == stop.line || below.atEnd || layout.all fun l => below.depth l ≤ head.depth l

/-! ## Statements -/

def Stmt.read (layout : Option Layout) (c : Cursor) : Reading Stmt c :=
  match c.next? with
  | some ⟨.word .defWord, c₁, h₁⟩ => do
    let ⟨(name, params), c₂, h₂⟩ ← readHead c₁
    let start := c₂.skipBreaks
    have h₃ : start.rest.length ≤ c₂.rest.length := c₂.skipBreaks_le
    let sameLine := start.line == c₂.line
    require (sameLine || bodyMayStart layout c start) (start.fail .indentedBody)
    let ⟨body, c₄, h₄⟩ ← Stmt.read layout start
    -- The token at fault is the one below, but nothing behind the body has been taken.
    require (sameLine || bodyMayEnd layout c c₄)
      { error := (c₄.skipBreaks.fail .statementBelowBody).error, stopped := c₄ }
    return ⟨.function name params [body], c₄, by omega⟩
  | some ⟨.word .returnWord, c₁, h₁⟩ => do
    let ⟨value, c₂, h₂⟩ ← Expr.read .conditional c₁
    return ⟨.ret value, c₂, by omega⟩
  | _ =>
    match c.target? with
    | some ⟨x, c₁, h₁⟩ => do
      let ⟨value, c₂, h₂⟩ ← Expr.read .conditional c₁
      return ⟨.assign x value, c₂, by omega⟩
    | none => do
      let ⟨value, c₁, h₁⟩ ← Expr.read .conditional c
      return ⟨.expr value, c₁, h₁⟩
termination_by c.rest.length
decreasing_by exact Nat.lt_of_le_of_lt h₃ (Nat.lt_trans h₂ h₁)

/-! ## Programs -/

def Token.isSeparator (t : Token) : Bool := t = .newline || t = .mark .semicolon

/-- The statements that follow the first one. Line breaks may trail a program, semicolons may not. -/
def Program.readRest (layout : Option Layout) (c : Cursor) : Except Failure (Program × Cursor) :=
  let separators := c.rest.takeWhile Token.isSeparator
  let next := c.skipWhile Token.isSeparator
  have : next.rest.length ≤ c.rest.length := c.skipWhile_le Token.isSeparator
  if next.atEnd && !separators.contains (.mark .semicolon) then return ([], next)
  else if separators.isEmpty then throw (c.fail .separator)
  else do
    let ⟨s, c₁, _⟩ ← Stmt.read layout next
    let (ss, last) ← Program.readRest layout c₁
    return (s :: ss, last)
termination_by c.rest.length

/-- Reads to the end of the tokens. -/
def Program.read (layout : Option Layout) (c : Cursor) : Except Failure (Program × Cursor) := do
  let ⟨s, c₁, _⟩ ← Stmt.read layout c.skipBreaks
  let (ss, last) ← Program.readRest layout c₁
  return (s :: ss, last)

/-- Reads a program, and tells where reading can be taken up again, also after an error. -/
def Program.readFrom (layout : Option Layout) (c : Cursor) : Except Unexpected Program × Cursor :=
  match Program.read layout c with
  | .ok (program, last) => (.ok program, last)
  | .error failure => (.error failure.error, failure.stopped)

/-- The program that the tokens are. -/
def Program.ofTokens (layout : Option Layout) (tokens : List Token) : Except Unexpected Program :=
  (Program.readFrom layout (Cursor.start tokens)).1

end ScriptToC
