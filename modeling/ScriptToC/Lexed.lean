/-
  ScriptToC.Lexed — the tokens of a text and the indentation of its lines.

  `Source.scan` reads a source to its end or to the first lexeme that is no token. Either way it
  also returns the source that is left, so that reading can go on behind a bad lexeme.
-/

import ScriptToC.Source
import ScriptToC.Text.Escape

namespace ScriptToC

/-- The leading blanks of each line. Line `k` is the one behind the `k`-th line break. -/
structure Layout where
  depths : List Nat
  deriving DecidableEq, Repr

/-- A line that the layout does not know is not indented. -/
def Layout.depth (layout : Layout) (line : Nat) : Nat := layout.depths[line]?.getD 0

structure Lexed where
  tokens : List Token
  layout : Layout
  deriving DecidableEq, Repr

/-- `token` in front, and before it the start of a line, if it is the first of one. -/
def Lexed.prepend (depths : List Nat) (token : Token) (l : Lexed) : Lexed :=
  ⟨token :: l.tokens, ⟨depths ++ l.layout.depths⟩⟩

/-- A lexeme that is no token, and where it starts. -/
structure BadLexeme where
  spelling : String
  place : Place
  deriving DecidableEq, Repr

def BadLexeme.message (e : BadLexeme) : String :=
  "Unrecognized token '" ++ String.ofList (Text.escape e.spelling.toList) ++ "' at line " ++
    Nat.repr e.place.line ++ ", column " ++ Nat.repr e.place.column

namespace Source

/-- Reads to the end. `lineStart` tells that the blanks ahead are the indentation of a line. -/
def scan (lineStart : Bool) (s : Source) : Except BadLexeme Lexed × Source :=
  let blanks := s.rest.takeWhile isBlank
  let depths := if lineStart then [blanks.length] else []
  let place := s.place.after blanks
  match _h : s.rest.dropWhile isBlank with
  | [] => (.ok ⟨[], ⟨depths⟩⟩, ⟨[], place⟩)
  | c :: tail =>
    let spelling := (munch c tail).1
    let next : Source := ⟨(munch c tail).2, place.after spelling⟩
    match Token.ofSpelling? spelling with
    | none => (.error ⟨String.ofList spelling, place⟩, next)
    | some token =>
      let (result, last) := scan (token = .newline) next
      (result.map (Lexed.prepend depths token), last)
termination_by s.rest.length
decreasing_by
  have := munch_shorter c tail
  have := congrArg List.length (List.takeWhile_append_dropWhile (p := isBlank) (l := s.rest))
  simp_all only [List.length_append, List.length_cons]
  omega

/-- Reads on from wherever the source stands. The first line read is the rest of a line. -/
def lex (s : Source) : Except BadLexeme Lexed × Source := s.scan true

end Source

/-- Reads a whole text. -/
def Lexed.ofString (text : String) : Except BadLexeme Lexed := (Source.ofString text).lex.1

end ScriptToC
