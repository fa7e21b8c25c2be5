/-
  ScriptToC.Proofs.Stripping — programs without the parentheses that are not written.

  A program and its stripped form have the same code (`Program.text_stripped`), and the stripped
  form of an expression is one of the same tier.
-/

import ScriptToC.Code.OfProgram
import ScriptToC.Proofs.Precedence

namespace ScriptToC

mutual

/-- The statement with all its expressions stripped. -/
def Stmt.stripped : Stmt → Stmt
  | .assign x e => .assign x e.stripped
  | .ret e => .ret e.stripped
  | .function f params body => .function f params (Stmt.allStripped body)
  | .expr e => .expr e.stripped

def Stmt.allStripped : List Stmt → List Stmt
  | [] => []
  | s :: ss => s.stripped :: Stmt.allStripped ss

end

def Program.stripped (p : Program) : Program := Stmt.allStripped p

@[simp] theorem Program.stripped_nil : Program.stripped [] = [] := rfl

@[simp] theorem Program.stripped_cons (s : Stmt) (p : Program) :
    Program.stripped (s :: p) = s.stripped :: Program.stripped p :=
  rfl

theorem Stmt.allStripped_eq_map (ss : List Stmt) : Stmt.allStripped ss = ss.map Stmt.stripped := by
  induction ss with
  | nil => rfl
  | cons s ss ih => rw [Stmt.allStripped, ih, List.map_cons]

theorem Program.mem_stripped {p : Program} {s : Stmt} : s ∈ p.stripped ↔ ∃ s' ∈ p, s'.stripped = s := by
  rw [Program.stripped, Stmt.allStripped_eq_map, List.mem_map]

theorem Program.stripped_ne_nil {p : Program} (h : p ≠ []) : p.stripped ≠ [] := by
  rcases p with _ | ⟨s, p⟩
  · exact absurd rfl h
  · exact List.cons_ne_nil _ _

/-! ## The text is the same -/

theorem Expr.isOperation_stripped {e : Expr} (h : e.isOperation = true) : e.stripped.isOperation = true := by
  cases e <;> first | rfl | cases h

theorem Expr.text_stripped (e : Expr) : e.stripped.text = e.text := by
  induction e with
  | number n => rfl
  | name x => rfl
  | arith op l r ihl ihr => simp [Expr.stripped, Expr.text, ihl, ihr]
  | compare op l r ihl ihr => simp [Expr.stripped, Expr.text, ihl, ihr]
  | conditional c t f ihc iht ihf => simp [Expr.stripped, Expr.text, ihc, iht, ihf]
  | grouped e ih =>
    unfold Expr.stripped
    by_cases h : e.isOperation = true
    · rw [if_pos h, Expr.text, if_pos (Expr.isOperation_stripped h), Expr.text, if_pos h, ih]
    · rw [if_neg h, Expr.text, if_neg h, ih]

mutual

theorem text_ofStmt_stripped (known : Declared) : (s : Stmt) →
    (CStmt.ofStmt known s.stripped).1.text = (CStmt.ofStmt known s).1.text ∧
      (CStmt.ofStmt known s.stripped).2 = (CStmt.ofStmt known s).2
  | .assign x e => by
    refine ⟨?_, rfl⟩
    show CStmt.text (if known.has x then .assign x e.stripped else .declare x e.stripped) =
      CStmt.text (if known.has x then .assign x e else .declare x e)
    split <;> rw [CStmt.text, CStmt.text, e.text_stripped]
  | .ret e => ⟨by rw [Stmt.stripped, CStmt.ofStmt, CStmt.ofStmt, CStmt.text, CStmt.text, e.text_stripped], rfl⟩
  | .function f params body => by
    refine ⟨?_, rfl⟩
    rw [Stmt.stripped, CStmt.ofStmt, CStmt.ofStmt, CStmt.text, CStmt.text, texts_ofStmts_stripped]
  | .expr e => ⟨by rw [Stmt.stripped, CStmt.ofStmt, CStmt.ofStmt, CStmt.text, CStmt.text, e.text_stripped], rfl⟩

theorem texts_ofStmts_stripped (known : Declared) : (ss : List Stmt) →
    CStmt.texts (CStmt.ofStmts known (Stmt.allStripped ss)).1 = CStmt.texts (CStmt.ofStmts known ss).1
  | [] => rfl
  | s :: ss => by
    obtain ⟨htext, hknown⟩ := text_ofStmt_stripped known s
    rw [Stmt.allStripped, CStmt.ofStmts, CStmt.ofStmts, CStmt.texts, CStmt.texts, htext, hknown,
      texts_ofStmts_stripped]

end

theorem Program.text_stripped (p : Program) : (Code.ofProgram p.stripped).text = (Code.ofProgram p).text :=
  congrArg (" ".intercalate ·) (texts_ofStmts_stripped Declared.empty p)

/-! ## The shape is the same -/

theorem Expr.tier_stripped (e : Expr) : e.stripped.tier = e.tier := by
  induction e with
  | number n | name x | arith op l r | compare op l r | conditional c t f => rfl
  | grouped e ih =>
    unfold Expr.stripped
    split
    · rfl
    · rename_i hatom
      rw [ih, Expr.tier_of_not_isOperation hatom, Expr.tier]

theorem Expr.Shaped.stripped {e : Expr} (h : e.Shaped) : e.stripped.Shaped := by
  induction e with
  | number n => exact h
  | name x => exact h
  | arith op l r ihl ihr | compare op l r ihl ihr =>
    rcases h with ⟨hl, hr, hranks⟩
    exact ⟨ihl hl, ihr hr, by rwa [l.tier_stripped, r.tier_stripped]⟩
  | conditional c t f ihc iht ihf =>
    rcases h with ⟨⟨hc, ht, hf⟩, hranks⟩
    exact ⟨⟨ihc hc, iht ht, ihf hf⟩, by rwa [c.tier_stripped, t.tier_stripped, f.tier_stripped]⟩
  | grouped e ih =>
    unfold Expr.stripped
    split <;> exact ih h

theorem Stmt.Shaped.stripped {s : Stmt} (h : s.Shaped) : s.stripped.Shaped := by
  induction h with
  | assign he => exact .assign he.stripped
  | ret he => exact .ret he.stripped
  | function _ ih => exact .function ih
  | expr he => exact .expr he.stripped

end ScriptToC
