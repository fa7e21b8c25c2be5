/-
  ScriptToC.Code — C-like code and its text, which is one line.

  Expressions are those of the script language: only their notation differs. Parentheses are
  written where the script has them, unless they hold a name, a number or other parentheses.
-/

import ScriptToC.Expr

namespace ScriptToC

def Expr.text : Expr → String
  | .number n => numberText n
  | .name x => x
  | .arith op l r => l.text ++ " " ++ op.symbol ++ " " ++ r.text
  | .compare op l r => l.text ++ " " ++ op.symbol ++ " " ++ r.text
  | .conditional c t f => c.text ++ " ? " ++ t.text ++ " : " ++ f.text
  | .grouped e => if e.isOperation then "(" ++ e.text ++ ")" else e.text

inductive CStmt
  | declare (name : String) (value : Expr)
  | assign (name : String) (value : Expr)
  | ret (value : Expr)
  | function (name : String) (params : List String) (body : List CStmt)
  | expr (value : Expr)
  deriving Repr

abbrev Code := List CStmt

mutual

/-- Every statement ends with a semicolon, a function too. -/
def CStmt.text : CStmt → String
  | .declare x e => "int " ++ x ++ " = " ++ e.text ++ ";"
  | .assign x e => x ++ " = " ++ e.text ++ ";"
  | .ret e => "return " ++ e.text ++ ";"
  | .function f params body =>
    "int " ++ f ++ "(" ++ ", ".intercalate (params.map ("int " ++ ·)) ++ ") \x7b " ++
      " ".intercalate (CStmt.texts body) ++ " \x7d;"
  | .expr e => e.text ++ ";"

def CStmt.texts : List CStmt → List String
  | [] => []
  | s :: ss => s.text :: CStmt.texts ss

end

theorem CStmt.texts_eq_map (ss : List CStmt) : CStmt.texts ss = ss.map CStmt.text := by
  induction ss with
  | nil => rfl
  | cons s ss ih => rw [CStmt.texts, ih, List.map_cons]

def Code.text (code : Code) : String := " ".intercalate (CStmt.texts code)

mutual

/-- The names that the statement declares, from left to right. Parameters and the names of
    functions are not among them. -/
def CStmt.declarations : CStmt → List String
  | .declare x _ => [x]
  | .function _ _ body => CStmt.allDeclarations body
  | .assign .. | .ret _ | .expr _ => []

def CStmt.allDeclarations : List CStmt → List String
  | [] => []
  | s :: ss => s.declarations ++ CStmt.allDeclarations ss

end

def Code.declarations (code : Code) : List String := CStmt.allDeclarations code

end ScriptToC
