/-
  ScriptToC.Proofs.Grammar — the grammar of scripts, said without a reader: which tokens are an
  expression, a statement or a program, and which tree they stand for.

      program     := newline* statement (separator+ statement)* newline*
      separator   := ';' | newline
      statement   := 'def' name '(' (name (',' name)*)? ')' ':' newline* statement
                   | 'return' conditional | name '=' conditional | conditional
      conditional := comparison ('if' comparison 'else' comparison)?
      comparison  := sum (compareOp sum)?
      sum         := product (('+' | '-') product)*
      product     := atom (('*' | '/') atom)*
      atom        := number | name | '(' conditional ')'

  Operations of one tier group to the left: what has been derived so far is the left operand of the
  next operation. So a phrase is either an expression of a tier, or the operations that go on with
  a left operand.
-/

import ScriptToC.Cursor
import ScriptToC.Expr
import ScriptToC.Program.Read

namespace ScriptToC

/-! ## Expressions -/

inductive Expr.Phrase
  | whole (tier : Tier)
  /-- The rest of a chain of operations, when `left` is what comes before. -/
  | onward (tier : Tier) (left : Expr)

inductive Expr.Derives : Expr.Phrase → List Token → Expr → Prop
  | number (n : UInt64) : Derives (.whole .atom) [.number n] (.number n)
  | name (x : String) : Derives (.whole .atom) [.name x] (.name x)
  | grouped {ts : List Token} {e : Expr} : Derives (.whole .conditional) ts e →
      Derives (.whole .atom) (.mark .openParen :: (ts ++ [.mark .closeParen])) (.grouped e)
  | product {ts us : List Token} {l e : Expr} : Derives (.whole .atom) ts l →
      Derives (.onward .product l) us e → Derives (.whole .product) (ts ++ us) e
  | sum {ts us : List Token} {l e : Expr} : Derives (.whole .product) ts l →
      Derives (.onward .sum l) us e → Derives (.whole .sum) (ts ++ us) e
  | done (tier : Tier) (l : Expr) : Derives (.onward tier l) [] l
  | operation {tier : Tier} {op : ArithOp} {ts us : List Token} {l r e : Expr} : op.tier = tier →
      Derives (.whole tier.operand) ts r → Derives (.onward tier (.arith op l r)) us e →
      Derives (.onward tier l) (.arith op :: (ts ++ us)) e
  | alone {ts : List Token} {e : Expr} : Derives (.whole .sum) ts e → Derives (.whole .comparison) ts e
  | compare {op : CompareOp} {ts us : List Token} {l r : Expr} : Derives (.whole .sum) ts l →
      Derives (.whole .sum) us r → Derives (.whole .comparison) (ts ++ .compare op :: us) (.compare op l r)
  | always {ts : List Token} {e : Expr} : Derives (.whole .comparison) ts e →
      Derives (.whole .conditional) ts e
  /-- Written `whenTrue if condition else whenFalse`. -/
  | conditional {ts us vs : List Token} {c t f : Expr} : Derives (.whole .comparison) ts t →
      Derives (.whole .comparison) us c → Derives (.whole .comparison) vs f →
      Derives (.whole .conditional) (ts ++ .word .ifWord :: (us ++ .word .elseWord :: vs))
        (.conditional c t f)

/-- Whether expressions of the tier are chains of operations. -/
def Tier.isChain : Tier → Bool
  | .product | .sum => true
  | .atom | .comparison | .conditional => false

theorem Expr.Derives.chain {tier : Tier} {ts us : List Token} {l e : Expr} (htier : tier.isChain = true)
    (hl : Derives (.whole tier.operand) ts l) (hrest : Derives (.onward tier l) us e) :
    Derives (.whole tier) (ts ++ us) e := by
  cases tier with
  | product => exact .product hl hrest
  | sum => exact .sum hl hrest
  | atom | comparison | conditional => cases htier

/-! ## Statements and programs -/

/-- The names of a parameter list, with commas between them. -/
def nameTokens (names : List String) : List Token := (names.map Token.name).intersperse (.mark .comma)

/-- What follows `def`, up to the colon. -/
def signatureTokens (name : String) (params : List String) : List Token :=
  .name name :: .mark .openParen :: (nameTokens params ++ [.mark .closeParen, .mark .colon])

inductive Stmt.Derives : List Token → Stmt → Prop
  | assign {x : String} {ts : List Token} {e : Expr} : Expr.Derives (.whole .conditional) ts e →
      Derives (.name x :: .mark .assign :: ts) (.assign x e)
  | ret {ts : List Token} {e : Expr} : Expr.Derives (.whole .conditional) ts e →
      Derives (.word .returnWord :: ts) (.ret e)
  | expr {ts : List Token} {e : Expr} : Expr.Derives (.whole .conditional) ts e → Derives ts (.expr e)
  | function {name : String} {params : List String} {breaks ts : List Token} {s : Stmt} :
      (∀ t ∈ breaks, t = .newline) → Derives ts s →
      Derives (.word .defWord :: (signatureTokens name params ++ (breaks ++ ts))) (.function name params [s])

/-- What can follow the first statement of a program: `(separator+ statement)* newline*`. -/
inductive Program.Continues : List Token → Program → Prop
  | done {breaks : List Token} : (∀ t ∈ breaks, t = .newline) → Continues breaks []
  | next {separators ts us : List Token} {s : Stmt} {ss : Program} : separators ≠ [] →
      (∀ t ∈ separators, t.isSeparator = true) → Stmt.Derives ts s → Continues us ss →
      Continues (separators ++ (ts ++ us)) (s :: ss)

inductive Program.Derives : List Token → Program → Prop
  | start {breaks ts us : List Token} {s : Stmt} {ss : Program} : (∀ t ∈ breaks, t = .newline) →
      Stmt.Derives ts s → Continues us ss → Derives (breaks ++ (ts ++ us)) (s :: ss)

/-! ## The tokens of an expression -/

/-- The tokens that occur in expressions. -/
def Token.inExpr : Token → Bool
  | .number _ | .name _ | .arith _ | .compare _ => true
  | .mark m => m = .openParen || m = .closeParen
  | .word k => k = .ifWord || k = .elseWord
  | .newline => false

/-- The tokens that an expression can begin with. -/
def Token.beginsExpr : Token → Bool
  | .number _ | .name _ => true
  | .mark m => m = .openParen
  | .arith _ | .compare _ | .word _ | .newline => false

theorem Expr.Derives.inExpr {p : Expr.Phrase} {ts : List Token} {e : Expr} (h : Expr.Derives p ts e) :
    ∀ t ∈ ts, t.inExpr = true := by
  induction h with
  | number n => simp [Token.inExpr]
  | name x => simp [Token.inExpr]
  | grouped _ ih => simpa [Token.inExpr, or_imp, forall_and] using ih
  | product _ _ ih₁ ih₂ | sum _ _ ih₁ ih₂ => simpa [or_imp, forall_and] using ⟨ih₁, ih₂⟩
  | done tier l => simp
  | operation _ _ _ ih₁ ih₂ => simpa [Token.inExpr, or_imp, forall_and] using ⟨ih₁, ih₂⟩
  | alone _ ih => exact ih
  | compare _ _ ih₁ ih₂ => simpa [Token.inExpr, or_imp, forall_and] using ⟨ih₁, ih₂⟩
  | always _ ih => exact ih
  | conditional _ _ _ ih₁ ih₂ ih₃ => simpa [Token.inExpr, or_imp, forall_and] using ⟨ih₁, ih₂, ih₃⟩

theorem Expr.Derives.no_break {p : Expr.Phrase} {ts : List Token} {e : Expr} (h : Expr.Derives p ts e) :
    .newline ∉ ts := by
  intro hmem
  cases h.inExpr _ hmem

theorem Expr.Derives.begins {p : Expr.Phrase} {tier : Tier} {ts : List Token} {e : Expr}
    (h : Expr.Derives p ts e) (hp : p = .whole tier) : ∃ t us, ts = t :: us ∧ t.beginsExpr = true := by
  induction h generalizing tier with
  | number n => exact ⟨_, _, rfl, rfl⟩
  | name x => exact ⟨_, _, rfl, rfl⟩
  | grouped _ _ => exact ⟨_, _, rfl, rfl⟩
  | product _ _ ih _ | sum _ _ ih _ | compare _ _ ih _ | conditional _ _ _ ih _ _ =>
    obtain ⟨t, us, rfl, ht⟩ := ih rfl
    exact ⟨t, _, rfl, ht⟩
  | done tier l => cases hp
  | operation _ _ _ _ _ => cases hp
  | alone _ ih | always _ ih => exact ih rfl

theorem Stmt.Derives.begins {ts : List Token} {s : Stmt} (h : Stmt.Derives ts s) :
    ∃ t us, ts = t :: us ∧ t.isSeparator = false := by
  cases h with
  | assign _ => exact ⟨_, _, rfl, by simp [Token.isSeparator]⟩
  | ret _ => exact ⟨_, _, rfl, by simp [Token.isSeparator]⟩
  | function _ _ => exact ⟨_, _, rfl, by simp [Token.isSeparator]⟩
  | expr he =>
    obtain ⟨t, us, rfl, ht⟩ := he.begins rfl
    refine ⟨t, us, rfl, ?_⟩
    cases t <;> simp_all [Token.beginsExpr, Token.isSeparator]

theorem Expr.Derives.last {tier : Tier} {ts : List Token} {e : Expr} (h : Expr.Derives (.whole tier) ts e) :
    ∃ us t, ts = us ++ [t] ∧ t ≠ .newline := by
  obtain ⟨t, us, rfl, -⟩ := h.begins rfl
  refine ⟨_, _, (List.dropLast_concat_getLast (List.cons_ne_nil t us)).symm, fun hlast => ?_⟩
  have hin := h.inExpr _ (List.getLast_mem (List.cons_ne_nil t us))
  rw [hlast] at hin
  cases hin

/-- Line breaks stand inside of functions, and no statement ends with one. -/
theorem Stmt.Derives.last {ts : List Token} {s : Stmt} (h : Stmt.Derives ts s) :
    ∃ us t, ts = us ++ [t] ∧ t ≠ .newline := by
  induction h with
  | assign he =>
    obtain ⟨us, t, rfl, ht⟩ := he.last
    exact ⟨_ :: _ :: us, t, rfl, ht⟩
  | ret he =>
    obtain ⟨us, t, rfl, ht⟩ := he.last
    exact ⟨_ :: us, t, rfl, ht⟩
  | expr he => exact he.last
  | @function name params breaks _ _ _ _ ih =>
    rcases ih with ⟨us, t, rfl, ht⟩
    exact ⟨.word .defWord :: (signatureTokens name params ++ (breaks ++ us)), t, by simp, ht⟩

end ScriptToC
