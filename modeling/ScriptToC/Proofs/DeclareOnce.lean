/-
  ScriptToC.Proofs.DeclareOnce — each name is declared once in a sequence of statements, and a
  function body is a sequence of its own.

  The text of a statement needs no set of declared names: it depends on the names that its sequence
  starts with and on the statements before it in that sequence (`Stmt.textBehind`). Main statement:
  `text_declares_once`.
-/

import ScriptToC.Code.OfProgram

namespace ScriptToC

/-- The name that a statement assigns to. -/
def Stmt.target? : Stmt → Option String
  | .assign x _ => some x
  | .ret _ | .function .. | .expr _ => none

/-- The names that are assigned to in a sequence, but not in the bodies of its functions. -/
def Stmt.targets (ss : List Stmt) : List String := ss.filterMap Stmt.target?

mutual

/-- The text of a statement, where `before` are the statements in front of it in a sequence that
    starts with the names `start`. -/
def Stmt.textBehind (start : List String) (before : List Stmt) : Stmt → String
  | .assign x e =>
    (if x ∈ start ∨ x ∈ Stmt.targets before then "" else "int ") ++ x ++ " = " ++ e.text ++ ";"
  | .ret e => "return " ++ e.text ++ ";"
  | .function f params body =>
    "int " ++ f ++ "(" ++ ", ".intercalate (params.map ("int " ++ ·)) ++ ") \x7b " ++
      Stmt.textOfAll params body ++ " \x7d;"
  | .expr e => e.text ++ ";"
termination_by s => sizeOf s

/-- The text of a sequence that starts with the names `start`. -/
def Stmt.textOfAll (start : List String) (ss : List Stmt) : String :=
  " ".intercalate (List.ofFn fun i : Fin ss.length => ss[i].textBehind start (ss.take i))
termination_by sizeOf ss
decreasing_by
  exact List.sizeOf_lt_of_mem (List.getElem_mem i.isLt)

end

/-! ## What is known in front of a statement -/

/-- The names that a sequence starts with, and those that it has assigned to. -/
def Knows (known : Declared) (start : List String) (before : List Stmt) : Prop :=
  ∀ x, known.has x = true ↔ x ∈ start ∨ x ∈ Stmt.targets before

theorem Knows.start (known : Declared) : Knows known known.names [] := by
  intro x
  simp [Declared.has, Stmt.targets]

theorem has_ofStmt (known : Declared) (s : Stmt) (x : String) :
    (CStmt.ofStmt known s).2.has x = true ↔ known.has x = true ∨ s.target? = some x := by
  cases s with
  | assign y e =>
    simp only [CStmt.ofStmt, Declared.has_add, Bool.or_eq_true, beq_iff_eq, Stmt.target?, Option.some.injEq]
    rw [or_comm, @eq_comm _ x y]
  | ret e => simp [CStmt.ofStmt, Stmt.target?]
  | function f params body => simp [CStmt.ofStmt, Stmt.target?]
  | expr e => simp [CStmt.ofStmt, Stmt.target?]

theorem Knows.step {known : Declared} {start : List String} {before : List Stmt} (h : Knows known start before)
    (s : Stmt) : Knows (CStmt.ofStmt known s).2 start (before ++ [s]) := by
  intro x
  have hmem : x ∈ Stmt.targets (before ++ [s]) ↔ x ∈ Stmt.targets before ∨ s.target? = some x := by
    simp [Stmt.targets]
  rw [has_ofStmt, h x, hmem, or_assoc]

theorem Knows.steps {known : Declared} {start : List String} {before : List Stmt} (h : Knows known start before)
    (ss : List Stmt) : Knows (CStmt.ofStmts known ss).2 start (before ++ ss) := by
  induction ss generalizing known before with
  | nil =>
    rw [List.append_nil]
    exact h
  | cons s ss ih =>
    have hrest := ih (h.step s)
    rw [List.append_assoc] at hrest
    exact hrest

/-! ## The text -/

mutual

theorem text_ofStmt {known : Declared} {start : List String} {before : List Stmt} (h : Knows known start before) :
    (s : Stmt) → (CStmt.ofStmt known s).1.text = s.textBehind start before
  | .assign x e => by
    rw [Stmt.textBehind, CStmt.ofStmt]
    by_cases hknown : x ∈ start ∨ x ∈ Stmt.targets before
    · rw [if_pos hknown, if_pos ((h x).2 hknown), CStmt.text, String.empty_append]
    · rw [if_neg hknown, if_neg (fun hhas => hknown ((h x).1 hhas)), CStmt.text]
  | .ret e => by rw [Stmt.textBehind, CStmt.ofStmt, CStmt.text]
  | .function f params body => by
    -- A body starts afresh, whatever is known in front of the function.
    have hbody := texts_ofStmts (Knows.start (Declared.ofParameters params)) body
    simp only [List.nil_append] at hbody
    rw [Stmt.textBehind, Stmt.textOfAll, CStmt.ofStmt, CStmt.text, hbody]
    rfl
  | .expr e => by rw [Stmt.textBehind, CStmt.ofStmt, CStmt.text]

theorem texts_ofStmts {known : Declared} {start : List String} {before : List Stmt} (h : Knows known start before) :
    (ss : List Stmt) → CStmt.texts (CStmt.ofStmts known ss).1 =
      List.ofFn fun i : Fin ss.length => ss[i].textBehind start (before ++ ss.take i)
  | [] => rfl
  | s :: ss => by
    have hfirst := text_ofStmt h s
    have hrest := texts_ofStmts (h.step s) ss
    rw [CStmt.ofStmts, CStmt.texts, hfirst, hrest, List.ofFn_succ]
    simp

end

/-- Every sequence of statements, from every set of names that is known at its start. -/
theorem text_declares_once (known : Declared) (ss : List Stmt) :
    Code.text (CStmt.ofStmts known ss).1 = Stmt.textOfAll known.names ss ∧
      (∀ x, (CStmt.ofStmts known ss).2.has x = true ↔ known.has x = true ∨ x ∈ Stmt.targets ss) ∧
      Code.text (Code.ofProgram ss) = Stmt.textOfAll [] ss := by
  have htext : ∀ known : Declared, Code.text (CStmt.ofStmts known ss).1 = Stmt.textOfAll known.names ss := by
    intro known
    have htexts := texts_ofStmts (Knows.start known) ss
    simp only [List.nil_append] at htexts
    rw [Stmt.textOfAll, Code.text, htexts]
  refine ⟨htext known, fun x => ?_, htext Declared.empty⟩
  have hlast := (Knows.start known).steps ss x
  rw [List.nil_append] at hlast
  rw [hlast, Declared.has, List.contains_iff_mem]

end ScriptToC
