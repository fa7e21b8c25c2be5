/-
  ScriptToC.Token — the tokens of the script language, how each is spelled, and the words that an
  error message uses for them.

  A spelling is a list of characters. `Token.ofSpelling?` reads back every spelling but those no
  token has: a character that starts no token, and a number that does not fit in 64 bits.
-/

namespace ScriptToC

/-- Division has two spellings in a script, `/` and `//`; both mean the same. -/
inductive ArithOp
  | add
  | sub
  | mul
  | div
  deriving DecidableEq, Repr

def ArithOp.symbol : ArithOp → String
  | .add => "+"
  | .sub => "-"
  | .mul => "*"
  | .div => "/"

inductive CompareOp
  | eq
  | ne
  | lt
  | gt
  | le
  | ge
  deriving DecidableEq, Repr

def CompareOp.symbol : CompareOp → String
  | .eq => "=="
  | .ne => "!="
  | .lt => "<"
  | .gt => ">"
  | .le => "<="
  | .ge => ">="

/-- The marks that hold statements together. -/
inductive Mark
  | assign
  | openParen
  | closeParen
  | semicolon
  | colon
  | comma
  deriving DecidableEq, Repr

def Mark.symbol : Mark → String
  | .assign => "="
  | .openParen => "("
  | .closeParen => ")"
  | .semicolon => ";"
  | .colon => ":"
  | .comma => ","

inductive Keyword
  | ifWord
  | elseWord
  | returnWord
  | defWord
  deriving DecidableEq, Repr

def Keyword.spelling : Keyword → String
  | .ifWord => "if"
  | .elseWord => "else"
  | .returnWord => "return"
  | .defWord => "def"

/-- A line break separates statements, so it is a token like the others. -/
inductive Token
  | number (value : UInt64)
  | name (text : String)
  | arith (op : ArithOp)
  | compare (op : CompareOp)
  | mark (m : Mark)
  | word (k : Keyword)
  | newline
  deriving DecidableEq, Repr

/-- The decimal digits of a number, with no leading zero. -/
def numberText (n : UInt64) : String := Nat.repr n.toNat

/-- What a message calls the token. -/
def Token.describe : Token → String
  | .number n => "int literal " ++ numberText n
  | .name x => "identifier '" ++ x ++ "'"
  | .arith op => "'" ++ op.symbol ++ "'"
  | .compare op => "'" ++ op.symbol ++ "'"
  | .mark m => "'" ++ m.symbol ++ "'"
  | .word k => "'" ++ k.spelling ++ "'"
  | .newline => "newline"

/-! ## Spellings -/

/-- Names are ASCII: letters, digits and underscores, and no digit first. -/
def isNameStart (c : Char) : Bool := c.isAlpha || c == '_'

def isNameChar (c : Char) : Bool := c.isAlphanum || c == '_'

/-- A digit run names a number below 2^64; leading zeros do not matter. -/
def Token.ofDigits? (digits : List Char) : Option Token :=
  let n := Nat.ofDigitChars 10 digits 0
  if h : n < UInt64.size then some (.number (UInt64.ofNatLT n h)) else none

/-- The four keywords are not names. -/
def Token.ofWord (letters : List Char) : Token :=
  match String.ofList letters with
  | "if" => .word .ifWord
  | "else" => .word .elseWord
  | "return" => .word .returnWord
  | "def" => .word .defWord
  | other => .name other

def Token.ofSymbol? : List Char → Option Token
  | ['\n'] => some .newline
  | ['+'] => some (.arith .add)
  | ['-'] => some (.arith .sub)
  | ['*'] => some (.arith .mul)
  | ['/'] => some (.arith .div)
  | ['/', '/'] => some (.arith .div)
  | ['=', '='] => some (.compare .eq)
  | ['!', '='] => some (.compare .ne)
  | ['<'] => some (.compare .lt)
  | ['>'] => some (.compare .gt)
  | ['<', '='] => some (.compare .le)
  | ['>', '='] => some (.compare .ge)
  | ['='] => some (.mark .assign)
  | ['('] => some (.mark .openParen)
  | [')'] => some (.mark .closeParen)
  | [';'] => some (.mark .semicolon)
  | [':'] => some (.mark .colon)
  | [','] => some (.mark .comma)
  | _ => none

def Token.ofSpelling? : List Char → Option Token
  | [] => none
  | c :: cs =>
    if c.isDigit then Token.ofDigits? (c :: cs)
    else if isNameStart c then some (Token.ofWord (c :: cs))
    else Token.ofSymbol? (c :: cs)

/-! ## Numbers and keywords are read back from their text -/

theorem ofDigitChars_numberText (n : UInt64) : Nat.ofDigitChars 10 (numberText n).toList 0 = n.toNat := by
  simp [numberText, Nat.toList_repr, Nat.ofDigitChars_toDigits]

theorem Token.ofWord_spelling (k : Keyword) : Token.ofWord k.spelling.toList = .word k := by cases k <;> rfl

end ScriptToC
