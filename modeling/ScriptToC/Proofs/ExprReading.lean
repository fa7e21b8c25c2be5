/-
  ScriptToC.Proofs.ExprReading — an expression of the grammar is read wherever its tokens lie ahead and no
  operator that could go on with it follows (`Expr.Derives.read`).

  Reading looks at the tokens that it takes and at the next one, and at nothing behind that. What is taken
  once is taken wherever the same tokens lie ahead and the same one follows (`Expr.Phrase.Takes`), and a
  phrase is taken if its parts are.
-/

import ScriptToC.Proofs.Grammar
import ScriptToC.Proofs.Passage

namespace ScriptToC

open Cursor

/-- What sums and products have in common: a first operand, and the operations behind it. -/
theorem Expr.read_chain {tier : Tier} (htier : tier.isChain = true) (c : Cursor) :
    Expr.read tier c = (do
      let ⟨left, c₁, h₁⟩ ← Expr.read tier.operand c
      Expr.readOperations tier ⟨left, c₁, h₁⟩) := by
  cases tier with
  | product | sum => rw [Expr.read, Tier.operand]
  | atom | comparison | conditional => cases htier

theorem Cursor.Passes.head?_or {c d : Cursor} {ts : List Token} (h : c.Passes ts d) :
    c.rest.head? = ts.head?.or d.rest.head? := by
  rw [h.rest, List.head?_append]

/-! ## What is taken -/

/-- Reading a phrase at `c` gives `e` and comes to `d`. -/
def Expr.Phrase.Reads (c d : Cursor) (e : Expr) : Expr.Phrase → Prop
  | .whole tier => (Expr.read tier c).Gives e d
  | .onward tier left => ∀ start (lt : c.rest.length < start.rest.length),
      (Expr.readOperations tier (⟨left, c, lt⟩ : Read Expr start)).Gives e d

/-- The tokens are `e`, and they are read as `e` wherever they lie ahead and `next` follows. -/
structure Expr.Phrase.Takes (p : Expr.Phrase) (ts : List Token) (next : Option Token) (e : Expr) : Prop where
  derives : Expr.Derives p ts e
  reads : ∀ c d : Cursor, c.Passes ts d → d.rest.head? = next → p.Reads c d e

namespace Expr.Phrase.Takes

variable {tier : Tier} {ts us vs : List Token} {next : Option Token} {e l r : Expr}

theorem number (n : UInt64) : (Phrase.whole .atom).Takes [.number n] next (.number n) := by
  refine ⟨.number n, fun c d hp _ => ?_⟩
  obtain ⟨lt, hn⟩ := hp.next?
  exact ⟨lt, by rw [Expr.read]; simp [hn]⟩

theorem name (x : String) : (Phrase.whole .atom).Takes [.name x] next (.name x) := by
  refine ⟨.name x, fun c d hp _ => ?_⟩
  obtain ⟨lt, hx⟩ := hp.next?
  exact ⟨lt, by rw [Expr.read]; simp [hx]⟩

theorem grouped (h : (Phrase.whole .conditional).Takes ts (some (.mark .closeParen)) e) :
    (Phrase.whole .atom).Takes (.mark .openParen :: (ts ++ [.mark .closeParen])) next (.grouped e) := by
  refine ⟨.grouped h.derives, fun c d hp _ => ?_⟩
  obtain ⟨c₁, hopen, hp⟩ := hp.uncons
  obtain ⟨c₂, hin, hclose⟩ := hp.split
  obtain ⟨_, ho⟩ := hopen.next?
  obtain ⟨_, he⟩ := h.reads c₁ c₂ hin hclose.head?
  obtain ⟨_, hc⟩ := hclose.expect .closingParen
  exact ⟨by omega, by rw [Expr.read]; simp [ho, he, hc]⟩

theorem chain (htier : tier.isChain = true) (hl : (Phrase.whole tier.operand).Takes ts (us.head?.or next) l)
    (hrest : (Phrase.onward tier l).Takes us next e) : (Phrase.whole tier).Takes (ts ++ us) next e := by
  refine ⟨.chain htier hl.derives hrest.derives, fun c d hp hd => ?_⟩
  obtain ⟨c₁, hp₁, hp₂⟩ := hp.split
  obtain ⟨lt, hleft⟩ := hl.reads c c₁ hp₁ (by rw [hp₂.head?_or, hd])
  obtain ⟨lt', hrest⟩ := hrest.reads c₁ d hp₂ hd c lt
  exact ⟨lt', by rw [Expr.read_chain htier]; simp [hleft, hrest]⟩

theorem done (hnext : ∀ op : ArithOp, next = some (.arith op) → op.tier ≠ tier) :
    (Phrase.onward tier l).Takes [] next l := by
  refine ⟨.done tier l, fun c d hp hd start lt => ?_⟩
  rw [passes_nil.1 hp] at hd ⊢
  refine ⟨lt, ?_⟩
  rw [Expr.readOperations]
  split
  · rename_i op c₁ h₁ hop
    rw [if_neg (hnext op (by rw [← hd, (passes_of_next? hop).head?]))]
    rfl
  · rfl

theorem operation {op : ArithOp} (htier : op.tier = tier) (hr : (Phrase.whole tier.operand).Takes ts (us.head?.or next) r)
    (hrest : (Phrase.onward tier (.arith op l r)).Takes us next e) :
    (Phrase.onward tier l).Takes (.arith op :: (ts ++ us)) next e := by
  refine ⟨.operation htier hr.derives hrest.derives, fun c d hp hd start lt => ?_⟩
  obtain ⟨c₁, hop, hp⟩ := hp.uncons
  obtain ⟨c₂, hp₁, hp₂⟩ := hp.split
  obtain ⟨_, ho⟩ := hop.next?
  obtain ⟨lt₂, hright⟩ := hr.reads c₁ c₂ hp₁ (by rw [hp₂.head?_or, hd])
  obtain ⟨lt', hlast⟩ := hrest.reads c₂ d hp₂ hd start (by omega)
  exact ⟨lt', by rw [Expr.readOperations]; simp [ho, htier, hright, hlast]⟩

theorem alone (h : (Phrase.whole .sum).Takes ts next e) (hnext : ∀ op, next ≠ some (.compare op)) :
    (Phrase.whole .comparison).Takes ts next e := by
  refine ⟨.alone h.derives, fun c d hp hd => ?_⟩
  obtain ⟨lt, hsum⟩ := h.reads c d hp hd
  refine ⟨lt, ?_⟩
  rw [Expr.read]
  simp only [hsum, Except.ok_bind]
  split
  · rename_i op c₁ h₁ hop
    exact absurd (by rw [← hd, (passes_of_next? hop).head?]) (hnext op)
  · rfl

theorem compare {op : CompareOp} (hl : (Phrase.whole .sum).Takes ts (some (.compare op)) l)
    (hr : (Phrase.whole .sum).Takes us next r) :
    (Phrase.whole .comparison).Takes (ts ++ .compare op :: us) next (.compare op l r) := by
  refine ⟨.compare hl.derives hr.derives, fun c d hp hd => ?_⟩
  obtain ⟨c₁, hp₁, hp⟩ := hp.split
  obtain ⟨c₂, hop, hp₂⟩ := hp.uncons
  obtain ⟨_, hleft⟩ := hl.reads c c₁ hp₁ hop.head?
  obtain ⟨_, ho⟩ := hop.next?
  obtain ⟨_, hright⟩ := hr.reads c₂ d hp₂ hd
  exact ⟨by omega, by rw [Expr.read]; simp [hleft, ho, hright]⟩

theorem always (h : (Phrase.whole .comparison).Takes ts next e) (hnext : next ≠ some (.word .ifWord)) :
    (Phrase.whole .conditional).Takes ts next e := by
  refine ⟨.always h.derives, fun c d hp hd => ?_⟩
  obtain ⟨lt, hcmp⟩ := h.reads c d hp hd
  exact ⟨lt, by rw [Expr.read]; simp [hcmp, take?_eq_none (hd ▸ hnext)]⟩

theorem conditional {t f : Expr} (ht : (Phrase.whole .comparison).Takes ts (some (.word .ifWord)) t)
    (hc : (Phrase.whole .comparison).Takes us (some (.word .elseWord)) e)
    (hf : (Phrase.whole .comparison).Takes vs next f) :
    (Phrase.whole .conditional).Takes (ts ++ .word .ifWord :: (us ++ .word .elseWord :: vs)) next
      (.conditional e t f) := by
  refine ⟨.conditional ht.derives hc.derives hf.derives, fun c d hp hd => ?_⟩
  obtain ⟨c₁, hp₁, hp⟩ := hp.split
  obtain ⟨c₂, hif, hp⟩ := hp.uncons
  obtain ⟨c₃, hp₂, hp⟩ := hp.split
  obtain ⟨c₄, helse, hp₃⟩ := hp.uncons
  obtain ⟨_, htrue⟩ := ht.reads c c₁ hp₁ hif.head?
  obtain ⟨_, hi⟩ := hif.take?
  obtain ⟨_, hcond⟩ := hc.reads c₂ c₃ hp₂ helse.head?
  obtain ⟨_, he⟩ := helse.expect .elseBranch
  obtain ⟨_, hfalse⟩ := hf.reads c₄ d hp₃ hd
  exact ⟨by omega, by rw [Expr.read]; simp [htrue, hi, hcond, he, hfalse]⟩

end Expr.Phrase.Takes

/-! ## Where an expression ends -/

/-- Whether an expression of a tier goes on with this token. -/
def Token.extendsTier (tier : Tier) : Token → Bool
  | .arith op => op.tier.rank ≤ tier.rank
  | .compare _ => Tier.comparison.rank ≤ tier.rank
  | .word k => k = .ifWord && Tier.conditional.rank ≤ tier.rank
  | .number _ | .name _ | .mark _ | .newline => false

/-- No expression of the tier goes on with what is next. -/
def Tier.EndsAt (tier : Tier) (next : Option Token) : Prop := ∀ t ∈ next, t.extendsTier tier = false

theorem Tier.endsAt_some {tier : Tier} {t : Token} (h : t.extendsTier tier = false) : tier.EndsAt (some t) := by
  rintro u ⟨⟩
  exact h

theorem Tier.EndsAt.mono {tier tier' : Tier} {next : Option Token} (h : tier.EndsAt next)
    (hle : tier'.rank ≤ tier.rank) : tier'.EndsAt next := by
  intro t ht
  have := h t ht
  cases t with
  | arith op => simp only [Token.extendsTier, decide_eq_false_iff_not] at this ⊢; omega
  | compare op => simp only [Token.extendsTier, decide_eq_false_iff_not] at this ⊢; omega
  | word k =>
    simp only [Token.extendsTier, Bool.and_eq_false_iff, decide_eq_false_iff_not] at this ⊢
    exact this.imp_right (fun hlt => by omega)
  | number n | name x | mark m | newline => rfl

theorem Tier.operand_rank_le (tier : Tier) : tier.operand.rank ≤ tier.rank := by cases tier <;> decide

/-- Between the operands of a chain stand its operators, and they end an operand. -/
theorem Expr.Derives.ends_operand {tier : Tier} {l e : Expr} {us : List Token} {next : Option Token}
    (h : Expr.Derives (.onward tier l) us e) (hnext : tier.EndsAt next) :
    tier.operand.EndsAt (us.head?.or next) := by
  cases h with
  | done => exact hnext.mono tier.operand_rank_le
  | @operation _ op _ _ _ _ _ htier _ _ =>
    subst htier
    exact Tier.endsAt_some (by cases op <;> decide)

@[simp] def Expr.Phrase.tier : Expr.Phrase → Tier
  | .whole tier | .onward tier _ => tier

/-- What is derived is taken, if it does not go on with what follows. -/
theorem Expr.Derives.takes {p : Expr.Phrase} {ts : List Token} {e : Expr} (h : Expr.Derives p ts e) :
    ∀ next, p.tier.EndsAt next → p.Takes ts next e := by
  induction h with
  | number n => exact fun _ _ => .number n
  | name x => exact fun _ _ => .name x
  | grouped _ ih => exact fun _ _ => .grouped (ih _ (Tier.endsAt_some rfl))
  | product _ hrest ihLeft ihRest | sum _ hrest ihLeft ihRest =>
    exact fun next hnext => .chain rfl (ihLeft _ (hrest.ends_operand hnext)) (ihRest next hnext)
  | done tier l =>
    intro next hnext
    refine .done (fun op hop => ?_)
    rintro rfl
    simpa [Token.extendsTier] using hnext _ hop
  | operation htier _ hrest ihRight ihRest =>
    exact fun next hnext => .operation htier (ihRight _ (hrest.ends_operand hnext)) (ihRest next hnext)
  | alone _ ih =>
    intro next hnext
    refine .alone (ih next (hnext.mono (by decide))) (fun op hop => ?_)
    simpa [Token.extendsTier] using hnext _ hop
  | compare _ _ ihLeft ihRight =>
    exact fun next hnext => .compare (ihLeft _ (Tier.endsAt_some rfl)) (ihRight next (hnext.mono (by decide)))
  | always _ ih =>
    intro next hnext
    refine .always (ih next (hnext.mono (by decide))) (fun hif => ?_)
    simpa [Token.extendsTier] using hnext _ hif
  | conditional _ _ _ ihTrue ihCondition ihFalse =>
    intro next hnext
    exact .conditional (ihTrue _ (Tier.endsAt_some rfl)) (ihCondition _ (Tier.endsAt_some rfl))
      (ihFalse next (hnext.mono (by decide)))

/-- An expression that ends where the tokens allow it is read whole. -/
theorem Expr.Derives.read {tier : Tier} {ts : List Token} {e : Expr} (h : Expr.Derives (.whole tier) ts e)
    {c d : Cursor} (hp : c.Passes ts d) (hd : tier.EndsAt d.rest.head?) : (Expr.read tier c).Gives e d :=
  (h.takes d.rest.head? hd).reads c d hp rfl

end ScriptToC
