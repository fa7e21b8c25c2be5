/-
  ScriptToC.Proofs.ReadTrees — which trees are read: those that the tiers of the grammar build, and all
  of them (`Program.is_read_iff_wellShaped`).

  `Stmt.Shaped` compares ranks, which is what printing needs. Here the same statements are said with the tiers
  of their expressions. A program can be written on one line (`Program.Derives.on_one_line`), where no layout has
  a say, so the same programs are read with every layout.
-/

import ScriptToC.Proofs.Functions
import ScriptToC.Proofs.Unparsing

namespace ScriptToC

open Cursor

/-! ## Statements and programs -/

/-- A statement whose expressions are built tier by tier, and whose bodies are one such statement each. -/
inductive Stmt.WellShaped : Stmt → Prop
  | assign {x : String} {e : Expr} : e.OfTier .conditional → WellShaped (.assign x e)
  | ret {e : Expr} : e.OfTier .conditional → WellShaped (.ret e)
  | function {name : String} {params : List String} {s : Stmt} : WellShaped s →
      WellShaped (.function name params [s])
  | expr {e : Expr} : e.OfTier .conditional → WellShaped (.expr e)

def Program.WellShaped (p : Program) : Prop := p ≠ [] ∧ ∀ s ∈ p, s.WellShaped

theorem Stmt.wellShaped_iff_shaped {s : Stmt} : s.WellShaped ↔ s.Shaped := by
  constructor
  · intro h
    induction h with
    | assign he => exact .assign (Expr.ofTier_conditional_iff.1 he)
    | ret he => exact .ret (Expr.ofTier_conditional_iff.1 he)
    | function _ ih => exact .function ih
    | expr he => exact .expr (Expr.ofTier_conditional_iff.1 he)
  · intro h
    induction h with
    | assign he => exact .assign (Expr.ofTier_conditional_iff.2 he)
    | ret he => exact .ret (Expr.ofTier_conditional_iff.2 he)
    | function _ ih => exact .function ih
    | expr he => exact .expr (Expr.ofTier_conditional_iff.2 he)

/-! ## Programs on one line -/

/-- A statement can be written on one line, bodies and all. -/
theorem Stmt.Derives.on_one_line {ts : List Token} {s : Stmt} (h : Stmt.Derives ts s) :
    ∃ us, .newline ∉ us ∧ Stmt.Derives us s := by
  induction h with
  | assign he => exact ⟨_, by simp [he.no_break], .assign he⟩
  | ret he => exact ⟨_, by simp [he.no_break], .ret he⟩
  | expr he => exact ⟨_, he.no_break, .expr he⟩
  | function _ _ ih =>
    obtain ⟨us, hus, hd⟩ := ih
    exact ⟨_, by simp [signature_no_break, hus], .function (List.forall_mem_nil _) hd⟩

theorem Program.Continues.on_one_line {ts : List Token} {p : Program} (h : Program.Continues ts p) :
    ∃ us, .newline ∉ us ∧ Program.Continues us p := by
  induction h with
  | done _ => exact ⟨[], List.not_mem_nil, .done (List.forall_mem_nil _)⟩
  | next _ _ hs _ ih =>
    obtain ⟨us, hus, hd⟩ := hs.on_one_line
    obtain ⟨vs, hvs, hc⟩ := ih
    have hsemicolon : ∀ t ∈ [Token.mark .semicolon], t.isSeparator = true := by simp [Token.isSeparator]
    exact ⟨_, by simp [hus, hvs], .next (List.cons_ne_nil _ []) hsemicolon hd hc⟩

theorem Program.Derives.on_one_line {ts : List Token} {p : Program} (h : Program.Derives ts p) :
    ∃ us, .newline ∉ us ∧ Program.Derives us p := by
  cases h with
  | start _ hs hrest =>
    obtain ⟨us, hus, hd⟩ := hs.on_one_line
    obtain ⟨vs, hvs, hc⟩ := hrest.on_one_line
    exact ⟨_, by simp [hus, hvs], .start (List.forall_mem_nil _) hd hc⟩

/-- A body on the line of its `def` is indented like it, whatever the layout. -/
theorem Program.Derives.ofTokens_on_one_line {ts : List Token} {p : Program} (h : Program.Derives ts p)
    (hne : .newline ∉ ts) (layout : Option Layout) : Program.ofTokens layout ts = .ok p := by
  refine Program.ofTokens_eq_ok_iff_laidOut.2 ⟨h, fun head hdef => ?_⟩
  obtain ⟨start, stop, hfun⟩ := h.functionAt hdef
  have hline : ∀ i, (before ts i).line = 0 := fun i =>
    List.count_eq_zero.2 (fun hmem => hne (List.mem_of_mem_take hmem))
  exact ⟨start, stop, hfun, .inl (by rw [hline, hline])⟩

/-- With any layout and without one, the programs that some tokens are read as are the well-shaped ones:
    those of at least one statement, each of them well-shaped. -/
theorem Program.is_read_iff_wellShaped (layout : Option Layout) (p : Program) :
    (∃ ts, Program.ofTokens layout ts = .ok p) ↔ p.WellShaped := by
  constructor
  · intro hread
    obtain ⟨ts, hts⟩ := hread
    have hd := Program.derives_of_ofTokens hts
    refine ⟨hd.ne_nil, fun s hs => ?_⟩
    obtain ⟨us, -, hus⟩ := hd.stmts s hs
    exact Stmt.wellShaped_iff_shaped.2 hus.shaped
  · intro hshape
    obtain ⟨hne, hall⟩ := hshape
    have hd := Program.derives_tokens hne (fun s hs => Stmt.wellShaped_iff_shaped.1 (hall s hs))
    obtain ⟨ts, hts, hd⟩ := hd.on_one_line
    exact ⟨ts, hd.ofTokens_on_one_line hts layout⟩

end ScriptToC
