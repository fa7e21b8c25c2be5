/-
  ScriptToC.Code.OfProgram — the C-like code that a program stands for.

  A script has no declarations, so the first assignment to a name in a sequence of statements
  declares it, and the later ones do not.
-/

import ScriptToC.Code
import ScriptToC.Declared
import ScriptToC.Program

namespace ScriptToC

mutual

/-- The code of a statement, and the names that are declared behind it. -/
def CStmt.ofStmt (known : Declared) : Stmt → CStmt × Declared
  | .assign x e => (if known.has x then .assign x e else .declare x e, known.add x)
  | .ret e => (.ret e, known)
  | .function f params body =>
    (.function f params (CStmt.ofStmts (Declared.ofParameters params) body).1, known)
  | .expr e => (.expr e, known)

def CStmt.ofStmts (known : Declared) : List Stmt → List CStmt × Declared
  | [] => ([], known)
  | s :: ss =>
    let (code, after) := CStmt.ofStmt known s
    let (rest, last) := CStmt.ofStmts after ss
    (code :: rest, last)

end

/-- The names that the first statements declare are known to the others. -/
theorem CStmt.ofStmts_append (known : Declared) (first others : List Stmt) :
    CStmt.ofStmts known (first ++ others) =
      ((CStmt.ofStmts known first).1 ++ (CStmt.ofStmts (CStmt.ofStmts known first).2 others).1,
        (CStmt.ofStmts (CStmt.ofStmts known first).2 others).2) := by
  induction first generalizing known with
  | nil => rfl
  | cons s ss ih => simp [CStmt.ofStmts, ih]

def Code.ofProgram (program : Program) : Code := (CStmt.ofStmts Declared.empty program).1

/-- The code of a statement that stands alone. -/
def Code.ofStmt (s : Stmt) : Code := [(CStmt.ofStmt Declared.empty s).1]

end ScriptToC
