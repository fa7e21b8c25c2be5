/-
  ScriptToC.Proofs.Shape — the trees that come from a text: an operand binds more tightly than its
  operator, but for the left one, which may bind alike (`Expr.Derives.shaped`).

  `Expr` itself knows no such rule. What is printed of a tree can be read back because of it. The rule
  compares ranks; the same trees are also built tier by tier, as the readers take them
  (`Expr.ofTier_iff_shapedAt`).
-/

import ScriptToC.Proofs.Grammar
import ScriptToC.Proofs.Grouping

namespace ScriptToC

/-- The tier of the outermost operator. -/
def Expr.tier : Expr → Tier
  | .number _ | .name _ | .grouped _ => .atom
  | .arith op _ _ => op.tier
  | .compare .. => .comparison
  | .conditional .. => .conditional

def Expr.Shaped : Expr → Prop
  | .number _ | .name _ => True
  | .grouped e => e.Shaped
  | .arith op l r =>
    l.Shaped ∧ r.Shaped ∧ l.tier.rank ≤ op.tier.rank ∧ r.tier.rank < op.tier.rank
  | .compare _ l r =>
    l.Shaped ∧ r.Shaped ∧ l.tier.rank < Tier.comparison.rank ∧ r.tier.rank < Tier.comparison.rank
  | .conditional c t f =>
    (c.Shaped ∧ t.Shaped ∧ f.Shaped) ∧ c.tier.rank < Tier.conditional.rank ∧
      t.tier.rank < Tier.conditional.rank ∧ f.tier.rank < Tier.conditional.rank

/-- An expression of a tier. -/
def Expr.ShapedAt (tier : Tier) (e : Expr) : Prop := e.Shaped ∧ e.tier.rank ≤ tier.rank

theorem Expr.ShapedAt.mono {tier tier' : Tier} {e : Expr} (h : e.ShapedAt tier) (hle : tier.rank ≤ tier'.rank) :
    e.ShapedAt tier' :=
  ⟨h.1, Nat.le_trans h.2 hle⟩

theorem ArithOp.operand_rank_lt (op : ArithOp) : op.tier.operand.rank < op.tier.rank := by cases op <;> decide

/-- What a phrase derives is shaped, when its left operand is. -/
def Expr.Phrase.Shapes (e : Expr) : Expr.Phrase → Prop
  | .whole tier => e.ShapedAt tier
  | .onward tier left => left.ShapedAt tier → e.ShapedAt tier

theorem Expr.Derives.shapes {p : Expr.Phrase} {ts : List Token} {e : Expr} (h : Expr.Derives p ts e) :
    p.Shapes e := by
  induction h with
  | number n => exact ⟨trivial, Nat.le_refl _⟩
  | name x => exact ⟨trivial, Nat.le_refl _⟩
  | grouped _ ih => exact ⟨ih.1, Nat.le_refl _⟩
  | product _ _ ihLeft ihRest | sum _ _ ihLeft ihRest => exact ihRest (Expr.ShapedAt.mono ihLeft (by decide))
  | done tier l => exact id
  | @operation _ op _ _ _ _ _ htier _ _ ihRight ihRest =>
    intro hl
    subst htier
    exact ihRest ⟨⟨hl.1, ihRight.1, hl.2, Nat.lt_of_le_of_lt ihRight.2 op.operand_rank_lt⟩, Nat.le_refl _⟩
  | alone _ ih => exact Expr.ShapedAt.mono ih (by decide)
  | compare _ _ ihLeft ihRight =>
    exact ⟨⟨ihLeft.1, ihRight.1, Nat.lt_succ_of_le ihLeft.2, Nat.lt_succ_of_le ihRight.2⟩, Nat.le_refl _⟩
  | always _ ih => exact Expr.ShapedAt.mono ih (by decide)
  | conditional _ _ _ ihTrue ihCondition ihFalse =>
    exact ⟨⟨⟨ihCondition.1, ihTrue.1, ihFalse.1⟩, Nat.lt_succ_of_le ihCondition.2,
      Nat.lt_succ_of_le ihTrue.2, Nat.lt_succ_of_le ihFalse.2⟩, Nat.le_refl _⟩

theorem Expr.Derives.shaped {tier : Tier} {ts : List Token} {e : Expr} (h : Expr.Derives (.whole tier) ts e) :
    e.Shaped :=
  h.shapes.1

/-! ## Tier by tier -/

theorem Tier.eq_of_rank_eq (tier tier' : Tier) (h : tier.rank = tier'.rank) : tier = tier' := by
  cases tier <;> cases tier' <;> first | rfl | cases h

theorem Tier.operand_rank (tier : Tier) : tier.operand.rank = tier.rank - 1 := by cases tier <;> rfl

/-- The expressions of a tier: its operations, and the expressions of the next tighter one. -/
inductive Expr.OfTier : Tier → Expr → Prop
  | number (n : UInt64) : OfTier .atom (.number n)
  | name (x : String) : OfTier .atom (.name x)
  | grouped {e : Expr} : OfTier .conditional e → OfTier .atom (.grouped e)
  | operand {tier : Tier} {e : Expr} : OfTier tier.operand e → OfTier tier e
  | arith {op : ArithOp} {l r : Expr} : OfTier op.tier l → OfTier op.tier.operand r → OfTier op.tier (.arith op l r)
  | compare {op : CompareOp} {l r : Expr} : OfTier .sum l → OfTier .sum r → OfTier .comparison (.compare op l r)
  | conditional {c t f : Expr} : OfTier .comparison c → OfTier .comparison t → OfTier .comparison f →
      OfTier .conditional (.conditional c t f)

theorem Expr.OfTier.shapedAt {tier : Tier} {e : Expr} (h : e.OfTier tier) : e.ShapedAt tier := by
  induction h with
  | number n => exact ⟨trivial, Nat.le_refl _⟩
  | name x => exact ⟨trivial, Nat.le_refl _⟩
  | grouped _ ih => exact ⟨ih.1, Nat.le_refl _⟩
  | @operand tier _ _ ih =>
    refine ih.mono ?_
    rw [Tier.operand_rank]
    omega
  | @arith op _ _ _ _ ihl ihr =>
    have hr := Nat.lt_of_le_of_lt ihr.2 op.operand_rank_lt
    exact ⟨⟨ihl.1, ihr.1, ihl.2, hr⟩, Nat.le_refl _⟩
  | compare _ _ ihl ihr =>
    exact ⟨⟨ihl.1, ihr.1, Nat.lt_succ_of_le ihl.2, Nat.lt_succ_of_le ihr.2⟩, Nat.le_refl _⟩
  | conditional _ _ _ ihc iht ihf =>
    exact ⟨⟨⟨ihc.1, iht.1, ihf.1⟩, Nat.lt_succ_of_le ihc.2, Nat.lt_succ_of_le iht.2, Nat.lt_succ_of_le ihf.2⟩,
      Nat.le_refl _⟩

theorem Expr.OfTier.mono {tier tier' : Tier} {e : Expr} (h : e.OfTier tier) (hle : tier.rank ≤ tier'.rank) :
    e.OfTier tier' :=
  of_rank_le (P := fun tier => e.OfTier tier) Tier.eq_of_rank_eq Tier.operand_rank (fun _ => .operand) hle h

theorem Expr.Shaped.ofTier {e : Expr} (h : e.Shaped) : e.OfTier e.tier := by
  induction e with
  | number n => exact .number n
  | name x => exact .name x
  | arith op l r ihl ihr =>
    rcases h with ⟨hl, hr, hlRank, hrRank⟩
    exact .arith ((ihl hl).mono hlRank) ((ihr hr).mono (by rw [Tier.operand_rank]; omega))
  | compare op l r ihl ihr =>
    rcases h with ⟨hl, hr, hlRank, hrRank⟩
    exact .compare ((ihl hl).mono (Nat.le_of_lt_succ hlRank)) ((ihr hr).mono (Nat.le_of_lt_succ hrRank))
  | conditional c t f ihc iht ihf =>
    rcases h with ⟨⟨hc, ht, hf⟩, hcRank, htRank, hfRank⟩
    exact .conditional ((ihc hc).mono (Nat.le_of_lt_succ hcRank)) ((iht ht).mono (Nat.le_of_lt_succ htRank))
      ((ihf hf).mono (Nat.le_of_lt_succ hfRank))
  | grouped e ih => exact .grouped ((ih h).mono e.tier.rank_le)

/-- The tiers and the comparison of ranks describe the same trees. -/
theorem Expr.ofTier_iff_shapedAt {tier : Tier} {e : Expr} : e.OfTier tier ↔ e.ShapedAt tier :=
  ⟨Expr.OfTier.shapedAt, fun h => h.1.ofTier.mono h.2⟩

theorem Expr.ofTier_conditional_iff {e : Expr} : e.OfTier .conditional ↔ e.Shaped :=
  Expr.ofTier_iff_shapedAt.trans ⟨fun h => h.1, fun h => ⟨h, Tier.rank_le _⟩⟩

/-! ## Statements -/

/-- A statement that a script can have: its expressions are shaped, and a body is one statement. -/
inductive Stmt.Shaped : Stmt → Prop
  | assign {x : String} {e : Expr} : e.Shaped → Shaped (.assign x e)
  | ret {e : Expr} : e.Shaped → Shaped (.ret e)
  | function {name : String} {params : List String} {s : Stmt} : Shaped s → Shaped (.function name params [s])
  | expr {e : Expr} : e.Shaped → Shaped (.expr e)

theorem Stmt.Derives.shaped {ts : List Token} {s : Stmt} (h : Stmt.Derives ts s) : s.Shaped := by
  induction h with
  | assign he => exact .assign he.shaped
  | ret he => exact .ret he.shaped
  | expr he => exact .expr he.shaped
  | function _ _ ih => exact .function ih

/-! ## Names, and the expressions of a program -/

/-- The names in an expression, from left to right as the tree has them. -/
def Expr.names : Expr → List String
  | .number _ => []
  | .name x => [x]
  | .grouped e => e.names
  | .arith _ l r | .compare _ l r => l.names ++ r.names
  | .conditional c t f => c.names ++ t.names ++ f.names

/-- Every name of an expression is one of its tokens, or stands in its left operand. -/
def Expr.Phrase.Names (ts : List Token) (e : Expr) : Expr.Phrase → Prop
  | .whole _ => ∀ x ∈ e.names, .name x ∈ ts
  | .onward _ left => ∀ x ∈ e.names, x ∈ left.names ∨ .name x ∈ ts

theorem Expr.Derives.names {p : Expr.Phrase} {ts : List Token} {e : Expr} (h : Expr.Derives p ts e) :
    p.Names ts e := by
  induction h with
  | number n => simp [Expr.Phrase.Names, Expr.names]
  | name x => simp [Expr.Phrase.Names, Expr.names]
  | grouped _ ih =>
    intro x hx
    simpa using ih x hx
  | product _ _ ihLeft ihRest | sum _ _ ihLeft ihRest =>
    intro x hx
    rw [List.mem_append]
    exact (ihRest x hx).imp_left (ihLeft x)
  | done tier l => exact fun x hx => .inl hx
  | operation _ _ _ ihRight ihRest =>
    intro x hx
    rcases ihRest x hx with h | h
    · rcases List.mem_append.1 h with h | h
      · exact .inl h
      · exact .inr (List.mem_cons_of_mem _ (List.mem_append_left _ (ihRight x h)))
    · exact .inr (List.mem_cons_of_mem _ (List.mem_append_right _ h))
  | alone _ ih | always _ ih => exact ih
  | compare _ _ ihLeft ihRight =>
    intro x hx
    rcases List.mem_append.1 hx with h | h
    · exact List.mem_append_left _ (ihLeft x h)
    · exact List.mem_append_right _ (List.mem_cons_of_mem _ (ihRight x h))
  | conditional _ _ _ ihTrue ihCondition ihFalse =>
    intro x hx
    simp only [Expr.names, List.mem_append, List.mem_cons, reduceCtorEq, false_or] at hx ⊢
    rcases hx with (h | h) | h
    · exact .inr (.inl (ihCondition x h))
    · exact .inl (ihTrue x h)
    · exact .inr (.inr (ihFalse x h))

mutual

/-- The expressions in a statement: values that are assigned or returned, and those that stand
    alone. -/
def Stmt.exprs : Stmt → List Expr
  | .assign _ e | .ret e | .expr e => [e]
  | .function _ _ body => Stmt.allExprs body

def Stmt.allExprs : List Stmt → List Expr
  | [] => []
  | s :: ss => s.exprs ++ Stmt.allExprs ss

end

def Program.exprs (p : Program) : List Expr := Stmt.allExprs p

theorem Stmt.Derives.exprs {ts : List Token} {s : Stmt} (h : Stmt.Derives ts s) :
    ∀ e ∈ s.exprs, ∃ us, us ⊆ ts ∧ Expr.Derives (.whole .conditional) us e := by
  induction h with
  | assign he | ret he | expr he =>
    intro e hmem
    obtain rfl := List.mem_singleton.1 hmem
    exact ⟨_, by simp, he⟩
  | @function _ _ _ ts _ _ _ ih =>
    intro e hmem
    obtain ⟨us, hsub, he⟩ := ih e (by simpa [Stmt.exprs, Stmt.allExprs] using hmem)
    exact ⟨us, fun t ht => by simp [hsub ht], he⟩

theorem Program.Continues.stmts {ts : List Token} {p : Program} (h : Program.Continues ts p) :
    ∀ s ∈ p, ∃ us, us ⊆ ts ∧ Stmt.Derives us s := by
  induction h with
  | done _ => simp
  | @next _ us _ s _ _ _ hs _ ih =>
    refine List.forall_mem_cons.2 ⟨⟨us, by simp, hs⟩, fun s' hmem => ?_⟩
    obtain ⟨vs, hsub, hs'⟩ := ih s' hmem
    exact ⟨vs, fun t ht => by simp [hsub ht], hs'⟩

/-- Every statement of a program is derived from some of its tokens. -/
theorem Program.Derives.stmts {ts : List Token} {p : Program} (h : Program.Derives ts p) :
    ∀ s ∈ p, ∃ us, us ⊆ ts ∧ Stmt.Derives us s := by
  cases h with
  | @start _ us _ s _ _ hs hrest =>
    refine List.forall_mem_cons.2 ⟨⟨us, by simp, hs⟩, fun s' hmem => ?_⟩
    obtain ⟨vs, hsub, hs'⟩ := hrest.stmts s' hmem
    exact ⟨vs, fun t ht => by simp [hsub ht], hs'⟩

theorem Program.Derives.ne_nil {ts : List Token} {p : Program} (h : Program.Derives ts p) : p ≠ [] := by
  cases h with
  | start _ _ _ => exact List.cons_ne_nil _ _

theorem Stmt.allExprs_eq_flatMap (ss : List Stmt) : Stmt.allExprs ss = ss.flatMap Stmt.exprs := by
  induction ss with
  | nil => rfl
  | cons s ss ih => rw [Stmt.allExprs, ih, List.flatMap_cons]

/-- Every expression of a program is derived from some of its tokens. -/
theorem Program.Derives.exprs {ts : List Token} {p : Program} (h : Program.Derives ts p) :
    ∀ e ∈ p.exprs, ∃ us, us ⊆ ts ∧ Expr.Derives (.whole .conditional) us e := by
  intro e hmem
  rw [Program.exprs, Stmt.allExprs_eq_flatMap] at hmem
  obtain ⟨s, hs, he⟩ := List.mem_flatMap.1 hmem
  obtain ⟨us, hus, hd⟩ := h.stmts s hs
  obtain ⟨vs, hvs, hexpr⟩ := hd.exprs e he
  exact ⟨vs, List.Subset.trans hvs hus, hexpr⟩

end ScriptToC
