/-
  ScriptToC.Source — a text that is being read: what is left of it, and the place of the next
  character.

  `munch` cuts off the longest run of characters that can be one token's spelling. It loses
  nothing and always takes a character (`munch_append`, `munch_shorter`).
-/

import ScriptToC.Token

namespace ScriptToC

/-- Lines and columns count from one, and every character is one column wide. -/
structure Place where
  line : Nat
  column : Nat
  deriving DecidableEq, Repr

def Place.start : Place := ⟨1, 1⟩

def Place.next (p : Place) (c : Char) : Place :=
  if c = '\n' then ⟨p.line + 1, 1⟩ else ⟨p.line, p.column + 1⟩

/-- The place just after a text that begins at `p`. -/
def Place.after (p : Place) (text : List Char) : Place := text.foldl Place.next p

@[simp] theorem Place.after_nil (p : Place) : p.after [] = p := rfl

@[simp] theorem Place.after_cons (p : Place) (c : Char) (text : List Char) :
    p.after (c :: text) = (p.next c).after text := rfl

theorem Place.after_append (p : Place) (s t : List Char) : p.after (s ++ t) = (p.after s).after t :=
  List.foldl_append

structure Source where
  rest : List Char
  place : Place
  deriving DecidableEq, Repr

def Source.ofString (text : String) : Source := ⟨text.toList, Place.start⟩

/-- Blanks separate tokens and never end a line. -/
def isBlank (c : Char) : Bool := c == ' ' || c == '\t' || c == '\r'

/-! ## The longest lexeme -/

/-- The symbols of two characters: `//`, and the comparisons that end in `=`. -/
def joins (a b : Char) : Bool :=
  (a == '/' && b == '/') || ((a == '=' || a == '!' || a == '<' || a == '>') && b == '=')

/-- The longest lexeme that starts with `c`, and what follows it. -/
def munch (c : Char) (rest : List Char) : List Char × List Char :=
  if c.isDigit then (c :: rest.takeWhile Char.isDigit, rest.dropWhile Char.isDigit)
  else if isNameStart c then (c :: rest.takeWhile isNameChar, rest.dropWhile isNameChar)
  else
    match rest with
    | [] => ([c], [])
    | d :: tail => if joins c d then ([c, d], tail) else ([c], d :: tail)

theorem munch_append (c : Char) (rest : List Char) : (munch c rest).1 ++ (munch c rest).2 = c :: rest := by
  unfold munch
  split
  · simp
  · split
    · simp
    · split
      · rfl
      · split <;> rfl

theorem munch_ne_nil (c : Char) (rest : List Char) : (munch c rest).1 ≠ [] := by
  unfold munch
  split
  · simp
  · split
    · simp
    · split
      · simp
      · split <;> simp

theorem munch_shorter (c : Char) (rest : List Char) : (munch c rest).2.length < (c :: rest).length := by
  have h := congrArg List.length (munch_append c rest)
  have h0 := List.length_pos_iff.2 (munch_ne_nil c rest)
  rw [List.length_append] at h
  omega

end ScriptToC
