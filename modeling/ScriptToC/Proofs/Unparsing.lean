/-
  ScriptToC.Proofs.Unparsing — every program of the right shape has tokens that derive it
  (`Program.derives_tokens`).

  A tree is written with the parentheses that it has and with no others. The shape says that they
  suffice: `Expr.Shaped.derives`.
-/

import ScriptToC.Proofs.Grouping
import ScriptToC.Proofs.Shape

namespace ScriptToC

/-! ## Expressions -/

def Expr.tokens : Expr → List Token
  | .number n => [.number n]
  | .name x => [.name x]
  | .arith op l r => l.tokens ++ .arith op :: r.tokens
  | .compare op l r => l.tokens ++ .compare op :: r.tokens
  | .conditional c t f => t.tokens ++ .word .ifWord :: (c.tokens ++ .word .elseWord :: f.tokens)
  | .grouped e => .mark .openParen :: (e.tokens ++ [.mark .closeParen])

/-- The operations of sums and of products group to the left. -/
theorem Tier.groupsLeft {tier : Tier} (htier : tier.isChain = true) :
    GroupsLeft Token.arith Expr.arith (fun op => op.tier = tier) (Expr.Derives (.whole tier.operand))
      (Expr.Derives (.whole tier)) (fun l => Expr.Derives (.onward tier l)) where
  done := .done tier
  operation := .operation
  chain := .chain htier
  onward_cases h := by
    cases h with
    | done => exact .inl ⟨rfl, rfl⟩
    | operation hop hr hrest => exact .inr ⟨_, _, _, _, rfl, hop, hr, hrest⟩
  whole_cases h := by
    cases h with
    | product hl hrest | sum hl hrest => exact ⟨_, _, _, rfl, hl, hrest⟩
    | number n | name x | grouped _ | alone _ | compare _ _ | always _ | conditional _ _ _ => cases htier

/-- An operand of a tier is an expression of the tier. -/
theorem Expr.Derives.widen {tier : Tier} {ts : List Token} {e : Expr} (h : Derives (.whole tier.operand) ts e) :
    Derives (.whole tier) ts e := by
  cases tier with
  | atom => exact h
  | product | sum => exact (Tier.groupsLeft rfl).widen h
  | comparison => exact .alone h
  | conditional => exact .always h

theorem ArithOp.isChain_tier (op : ArithOp) : op.tier.isChain = true := by cases op <;> rfl

theorem Expr.OfTier.derives {tier : Tier} {e : Expr} (h : e.OfTier tier) : Derives (.whole tier) e.tokens e := by
  induction h with
  | number n => exact .number n
  | name x => exact .name x
  | grouped _ ih => exact .grouped ih
  | operand _ ih => exact ih.widen
  | @arith op _ _ _ _ ihl ihr => exact (Tier.groupsLeft op.isChain_tier).snoc ihl rfl ihr
  | compare _ _ ihl ihr => exact .compare ihl ihr
  | conditional _ _ _ ihc iht ihf => exact .conditional iht ihc ihf

theorem Expr.Shaped.derives {e : Expr} (h : e.Shaped) : Derives (.whole .conditional) e.tokens e :=
  (Expr.ofTier_conditional_iff.2 h).derives

/-! ## Statements and programs -/

mutual

def Stmt.tokens : Stmt → List Token
  | .assign x e => .name x :: .mark .assign :: e.tokens
  | .ret e => .word .returnWord :: e.tokens
  | .function name params body => .word .defWord :: (signatureTokens name params ++ Stmt.tokensBehind .newline body)
  | .expr e => e.tokens

/-- The tokens of statements, with a separator in front of each. -/
def Stmt.tokensBehind (separator : Token) : List Stmt → List Token
  | [] => []
  | s :: ss => separator :: (s.tokens ++ Stmt.tokensBehind separator ss)

end

/-- The tokens of a program, with semicolons between the statements. -/
def Program.tokens : Program → List Token
  | [] => []
  | s :: p => s.tokens ++ Stmt.tokensBehind (.mark .semicolon) p

theorem Stmt.Shaped.derives {s : Stmt} (h : s.Shaped) : Stmt.Derives s.tokens s := by
  induction h with
  | assign he => exact .assign he.derives
  | ret he => exact .ret he.derives
  | @function name params s _ ih =>
    have hbreaks : ∀ t ∈ [Token.newline], t = .newline := by simp
    simpa [Stmt.tokens, Stmt.tokensBehind] using Stmt.Derives.function hbreaks ih
  | expr he => exact .expr he.derives

theorem Program.continues_tokens {p : Program} (h : ∀ s ∈ p, s.Shaped) {separator : Token}
    (hsep : separator.isSeparator = true) : Program.Continues (Stmt.tokensBehind separator p) p := by
  induction p with
  | nil => exact .done (List.forall_mem_nil _)
  | cons s p ih =>
    obtain ⟨hs, hp⟩ := List.forall_mem_cons.1 h
    have hseparators : ∀ t ∈ [separator], t.isSeparator = true := by simpa using hsep
    exact .next (List.cons_ne_nil separator []) hseparators hs.derives (ih hp)

theorem Program.derives_tokens {p : Program} (hne : p ≠ []) (h : ∀ s ∈ p, s.Shaped) :
    Program.Derives p.tokens p := by
  obtain ⟨s, p, rfl⟩ := List.exists_cons_of_ne_nil hne
  obtain ⟨hs, hp⟩ := List.forall_mem_cons.1 h
  exact .start (List.forall_mem_nil _) hs.derives (continues_tokens hp rfl)

theorem Stmt.mem_tokensBehind {separator t : Token} {ss : List Stmt} (h : t ∈ Stmt.tokensBehind separator ss) :
    t = separator ∨ ∃ s ∈ ss, t ∈ s.tokens := by
  induction ss with
  | nil => cases h
  | cons s ss ih =>
    rw [Stmt.tokensBehind, List.mem_cons, List.mem_append] at h
    rcases h with rfl | h | h
    · exact .inl rfl
    · exact .inr ⟨s, by simp, h⟩
    · exact (ih h).imp_right (fun ⟨s', hs', ht⟩ => ⟨s', List.mem_cons_of_mem s hs', ht⟩)

theorem Program.mem_tokens {t : Token} {p : Program} (h : t ∈ p.tokens) :
    t = .mark .semicolon ∨ ∃ s ∈ p, t ∈ s.tokens := by
  rcases p with _ | ⟨s, p⟩
  · cases h
  · rcases List.mem_append.1 h with h | h
    · exact .inr ⟨s, by simp, h⟩
    · exact (Stmt.mem_tokensBehind h).imp_right (fun ⟨s', hs', ht⟩ => ⟨s', List.mem_cons_of_mem s hs', ht⟩)

end ScriptToC
