/-
  ScriptToC.Text.WhiteSpace — white space of every script (Unicode 17.0, property White_Space), and
  text without it at its ends.
-/

import ScriptToC.Text.CharClass

namespace ScriptToC.Text

def whiteSpace : CharClass where
  ranges :=
    [(0x9, 0xd), (0x20, 0x20), (0x85, 0x85), (0xa0, 0xa0), (0x1680, 0x1680), (0x2000, 0x200a),
     (0x2028, 0x2029), (0x202f, 0x202f), (0x205f, 0x205f), (0x3000, 0x3000)]

def trim (text : List Char) : List Char :=
  ((text.dropWhile whiteSpace.contains).reverse.dropWhile whiteSpace.contains).reverse

end ScriptToC.Text
