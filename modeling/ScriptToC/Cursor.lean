/-
  ScriptToC.Cursor — a place among the tokens of a text, and reading on from there.

  What is read from a cursor comes with the cursor behind it and the proof that fewer tokens are
  left, so everything built from these steps comes to an end.
-/

import ScriptToC.Lexed
import ScriptToC.Unexpected

namespace ScriptToC

/-- The tokens still to be read, the number of tokens before them, and the number of line breaks
    among those. -/
structure Cursor where
  rest : List Token
  index : Nat
  line : Nat
  deriving DecidableEq, Repr

def Cursor.start (tokens : List Token) : Cursor := ⟨tokens, 0, 0⟩

/-- Something read at `start`. -/
structure Read (α : Type) (start : Cursor) where
  value : α
  next : Cursor
  shorter : next.rest.length < start.rest.length

/-- Where reading failed, and where it can be taken up again. -/
structure Failure where
  error : Unexpected
  stopped : Cursor
  deriving DecidableEq, Repr

/-- Reading something at `start`. -/
abbrev Reading (α : Type) (start : Cursor) := Except Failure (Read α start)

/-- Goes on only if a rule is kept. -/
def require (kept : Bool) (failure : Failure) : Except Failure Unit :=
  if kept then .ok () else .error failure

namespace Cursor

def atEnd (c : Cursor) : Bool := c.rest.isEmpty

/-- How deep the line at the cursor is indented. -/
def depth (layout : Layout) (c : Cursor) : Nat := layout.depth c.line

def next? (c : Cursor) : Option (Read Token c) :=
  match h : c.rest with
  | [] => none
  | token :: rest =>
    some ⟨token, ⟨rest, c.index + 1, if token = .newline then c.line + 1 else c.line⟩, by simp [h]⟩

/-- Behind the tokens of a kind, however many are next. -/
def skipWhile (p : Token → Bool) (c : Cursor) : Cursor :=
  let skipped := c.rest.takeWhile p
  ⟨c.rest.dropWhile p, c.index + skipped.length, c.line + skipped.count .newline⟩

theorem skipWhile_le (p : Token → Bool) (c : Cursor) : (c.skipWhile p).rest.length ≤ c.rest.length :=
  (List.dropWhile_sublist p).length_le

def skipBreaks (c : Cursor) : Cursor := c.skipWhile (· = .newline)

theorem skipBreaks_le (c : Cursor) : c.skipBreaks.rest.length ≤ c.rest.length := c.skipWhile_le _

/-- The token at the cursor is not the one that is wanted. -/
def fail (c : Cursor) (expected : Expectation) : Failure := ⟨⟨expected, c.rest.head?, c.index⟩, c⟩

/-- The wanted token, if it is next. -/
def take? (c : Cursor) (wanted : Token) : Option (Read Token c) :=
  c.next?.filter (·.value = wanted)

def expect (c : Cursor) (wanted : Token) (expected : Expectation) : Reading Token c :=
  match c.take? wanted with
  | some r => .ok r
  | none => .error (c.fail expected)

/-- The name that is next, if one is. -/
def name? (c : Cursor) : Option (Read String c) :=
  match c.next? with
  | some ⟨.name x, c₁, h₁⟩ => some ⟨x, c₁, h₁⟩
  | _ => none

/-- The name in front of an equals sign, if these are next. -/
def target? (c : Cursor) : Option (Read String c) :=
  match c.name? with
  | some ⟨x, c₁, h₁⟩ =>
    match c₁.take? (.mark .assign) with
    | some ⟨_, c₂, h₂⟩ => some ⟨x, c₂, by omega⟩
    | none => none
  | none => none

def expectName (c : Cursor) (expected : Expectation) : Reading String c :=
  match c.name? with
  | some r => .ok r
  | none => .error (c.fail expected)

end Cursor

end ScriptToC
