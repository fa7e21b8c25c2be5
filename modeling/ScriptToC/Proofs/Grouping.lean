/-
  ScriptToC.Proofs.Grouping — operators that group to the left, in whatever grammar.

  A grammar of operators has tiers, and the operands of one are the expressions of the next tighter one.
  Scripts and C have different tokens, operators and tiers, and what holds of both is said here once. An
  expression of a tier is a first operand and the operations that go on with it, each with all that comes
  before as its left operand (`GroupsLeft`). So an operand is itself an expression of the tier
  (`GroupsLeft.widen`), and one more operation goes on top of the others (`GroupsLeft.snoc`).
-/

namespace ScriptToC

/-! ## Chains of operations -/

/-- The expressions of a tier are chains of the operations that belong to it. `Onward l ts e` says that the
    tokens go on with the left operand `l`, and that all of it is `e`. -/
structure GroupsLeft {τ ο ε : Type} (sign : ο → τ) (apply : ο → ε → ε → ε) (Belongs : ο → Prop)
    (Operand Whole : List τ → ε → Prop) (Onward : ε → List τ → ε → Prop) : Prop where
  done (l : ε) : Onward l [] l
  operation {o : ο} {l r e : ε} {ts us : List τ} : Belongs o → Operand ts r → Onward (apply o l r) us e →
    Onward l (sign o :: (ts ++ us)) e
  chain {l e : ε} {ts us : List τ} : Operand ts l → Onward l us e → Whole (ts ++ us) e
  onward_cases {l e : ε} {ts : List τ} : Onward l ts e → ts = [] ∧ e = l ∨
    ∃ o us vs r, ts = sign o :: (us ++ vs) ∧ Belongs o ∧ Operand us r ∧ Onward (apply o l r) vs e
  whole_cases {e : ε} {ts : List τ} : Whole ts e → ∃ us vs l, ts = us ++ vs ∧ Operand us l ∧ Onward l vs e

namespace GroupsLeft

variable {τ ο ε : Type} {sign : ο → τ} {apply : ο → ε → ε → ε} {Belongs : ο → Prop}
  {Operand Whole : List τ → ε → Prop} {Onward : ε → List τ → ε → Prop}
  (g : GroupsLeft sign apply Belongs Operand Whole Onward)

include g

theorem widen {ts : List τ} {e : ε} (h : Operand ts e) : Whole ts e := by
  simpa using g.chain h (g.done e)

theorem snoc_onward {o : ο} {first l r : ε} {ts us : List τ} (h : Onward first ts l) (ho : Belongs o)
    (hr : Operand us r) : Onward first (ts ++ sign o :: us) (apply o l r) := by
  rcases g.onward_cases h with ⟨rfl, rfl⟩ | ⟨o', vs, ws, r', hts, ho', hr', hrest⟩
  · simpa using g.operation ho hr (g.done _)
  · have hlast := snoc_onward hrest ho hr
    simpa [hts] using g.operation ho' hr' hlast
termination_by ts.length
decreasing_by
  simp only [hts, List.length_cons, List.length_append]
  omega

theorem snoc {o : ο} {l r : ε} {ts us : List τ} (hl : Whole ts l) (ho : Belongs o) (hr : Operand us r) :
    Whole (ts ++ sign o :: us) (apply o l r) := by
  obtain ⟨vs, ws, first, rfl, hfirst, hrest⟩ := g.whole_cases hl
  simpa using g.chain hfirst (g.snoc_onward hrest ho hr)

end GroupsLeft

/-! ## Tiers above one another -/

/-- What passes from the operands of a tier to the tier holds of all looser tiers. -/
theorem of_rank_le {α : Type} {rank : α → Nat} {operand : α → α} {P : α → Prop}
    (hrank : ∀ a b, rank a = rank b → a = b) (hoperand : ∀ a, rank (operand a) = rank a - 1)
    (hstep : ∀ a, P (operand a) → P a) {a b : α} (hle : rank a ≤ rank b) (h : P a) : P b := by
  by_cases heq : rank a = rank b
  · exact hrank a b heq ▸ h
  · exact hstep b (of_rank_le hrank hoperand hstep (by rw [hoperand]; omega) h)
termination_by rank b
decreasing_by
  rw [hoperand]
  omega

end ScriptToC
