/-
  ScriptToC.Text.Escape — text made fit to stand between quotes in a one-line message.

  Quotes and backslashes get a backslash, the usual controls their letter, and all that cannot be
  seen its code point. A mark that is drawn onto the character in front of it is shown as it is,
  but not right behind the opening quote.
-/

import ScriptToC.Text.Extending
import ScriptToC.Text.Unprintable

namespace ScriptToC.Text

/-- A character given by its code point, in hexadecimal digits. -/
def codePoint (c : Char) : List Char := ['\\', 'u', '\x7b'] ++ Nat.toDigits 16 c.toNat ++ ['\x7d']

/-- The letter of a character that has a short escape. -/
def shortEscape? (c : Char) : Option Char :=
  match c with
  | '\x00' => some '0'
  | '\t' => some 't'
  | '\n' => some 'n'
  | '\r' => some 'r'
  | '"' => some '"'
  | '\'' => some '\''
  | '\\' => some '\\'
  | _ => none

/-- `hidden` tells which characters are given by their code point. -/
def escapeChar (hidden : Char → Bool) (c : Char) : List Char :=
  match shortEscape? c with
  | some letter => ['\\', letter]
  | none => if hidden c then codePoint c else [c]

def escape : List Char → List Char
  | [] => []
  | c :: cs =>
    escapeChar (fun d => extending.contains d || unprintable.contains d) c ++
      cs.flatMap (escapeChar unprintable.contains)

end ScriptToC.Text
