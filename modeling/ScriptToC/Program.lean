/-
  ScriptToC.Program — statements and programs of the script language.
-/

import ScriptToC.Expr

namespace ScriptToC

/-- A function may have any number of statements in its body, though a script can only write one. -/
inductive Stmt
  | assign (name : String) (value : Expr)
  | ret (value : Expr)
  | function (name : String) (params : List String) (body : List Stmt)
  | expr (value : Expr)
  deriving Repr

abbrev Program := List Stmt

/-! ## Equality -/

mutual

def Stmt.decEq : (a b : Stmt) → Decidable (a = b)
  | .assign x e, .assign y f => decidable_of_iff (x = y ∧ e = f) (by simp)
  | .ret e, .ret f => decidable_of_iff (e = f) (by simp)
  | .expr e, .expr f => decidable_of_iff (e = f) (by simp)
  | .function f ps b, .function g qs c =>
    have := Stmt.decEqBody b c
    decidable_of_iff (f = g ∧ ps = qs ∧ b = c) (by simp)
  | .assign .., .ret .. | .assign .., .function .. | .assign .., .expr .. => isFalse nofun
  | .ret .., .assign .. | .ret .., .function .. | .ret .., .expr .. => isFalse nofun
  | .function .., .assign .. | .function .., .ret .. | .function .., .expr .. => isFalse nofun
  | .expr .., .assign .. | .expr .., .ret .. | .expr .., .function .. => isFalse nofun

def Stmt.decEqBody : (a b : List Stmt) → Decidable (a = b)
  | [], [] => isTrue rfl
  | [], _ :: _ => isFalse nofun
  | _ :: _, [] => isFalse nofun
  | s :: ss, t :: ts =>
    have := Stmt.decEq s t
    have := Stmt.decEqBody ss ts
    decidable_of_iff (s = t ∧ ss = ts) (by simp)

end

instance : DecidableEq Stmt := Stmt.decEq

end ScriptToC
