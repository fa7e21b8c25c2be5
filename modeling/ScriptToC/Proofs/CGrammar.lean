/-
  ScriptToC.Proofs.CGrammar — how C reads an expression: its tokens, and its grammar.

      conditional    := equality ('?' conditional ':' conditional)?
      equality       := relational (('==' | '!=') relational)*
      relational     := additive (('<' | '>' | '<=' | '>=') additive)*
      additive       := multiplicative (('+' | '-') multiplicative)*
      multiplicative := primary (('*' | '/') primary)*
      primary        := number | identifier | '(' conditional ')'

  Trees are those of scripts, and parentheses are kept in them. No tokens have two trees
  (`CDerives.unique`): an expression of a level ends where no operator of the level follows.
-/

import ScriptToC.Code
import ScriptToC.Source

namespace ScriptToC

/-! ## Tokens -/

inductive COp
  | arith (op : ArithOp)
  | compare (op : CompareOp)
  deriving DecidableEq, Repr

def COp.apply : COp → Expr → Expr → Expr
  | .arith op => .arith op
  | .compare op => .compare op

inductive CToken
  | number (value : UInt64)
  | name (text : String)
  | op (o : COp)
  | openParen
  | closeParen
  | question
  | colon
  deriving DecidableEq, Repr

/-- A number that begins with a zero is octal, unless it is zero itself. -/
def CToken.ofDigits? (digits : List Char) : Option CToken :=
  let n := Nat.ofDigitChars 10 digits 0
  if digits.head? = some '0' ∧ digits ≠ ['0'] then none
  else if h : n < UInt64.size then some (.number (UInt64.ofNatLT n h)) else none

/-- Two slashes are none of these: they begin a comment. -/
def CToken.ofSymbol? : List Char → Option CToken
  | ['+'] => some (.op (.arith .add))
  | ['-'] => some (.op (.arith .sub))
  | ['*'] => some (.op (.arith .mul))
  | ['/'] => some (.op (.arith .div))
  | ['=', '='] => some (.op (.compare .eq))
  | ['!', '='] => some (.op (.compare .ne))
  | ['<'] => some (.op (.compare .lt))
  | ['>'] => some (.op (.compare .gt))
  | ['<', '='] => some (.op (.compare .le))
  | ['>', '='] => some (.op (.compare .ge))
  | ['('] => some .openParen
  | [')'] => some .closeParen
  | ['?'] => some .question
  | [':'] => some .colon
  | _ => none

def CToken.ofSpelling? : List Char → Option CToken
  | [] => none
  | c :: cs =>
    if c.isDigit then CToken.ofDigits? (c :: cs)
    else if isNameStart c then some (.name (String.ofList (c :: cs)))
    else CToken.ofSymbol? (c :: cs)

/-- The tokens of a text. Each is as long as it can be. -/
def CToken.scan : List Char → Option (List CToken)
  | [] => some []
  | c :: tail =>
    if c.isWhitespace then CToken.scan tail
    else do
      let t ← CToken.ofSpelling? (munch c tail).1
      let ts ← CToken.scan (munch c tail).2
      return t :: ts
termination_by cs => cs.length
decreasing_by
  · simp
  · exact munch_shorter c tail

/-! ## The grammar -/

inductive CLevel
  | primary
  | multiplicative
  | additive
  | relational
  | equality
  | conditional
  deriving DecidableEq, Repr

def CLevel.rank : CLevel → Nat
  | .primary => 0
  | .multiplicative => 1
  | .additive => 2
  | .relational => 3
  | .equality => 4
  | .conditional => 5

/-- The next tighter level, whose expressions are the operands of this one. -/
def CLevel.operand : CLevel → CLevel
  | .conditional => .equality
  | .equality => .relational
  | .relational => .additive
  | .additive => .multiplicative
  | .multiplicative | .primary => .primary

/-- Whether expressions of the level are chains of operations. -/
def CLevel.isChain : CLevel → Bool
  | .multiplicative | .additive | .relational | .equality => true
  | .primary | .conditional => false

def COp.level : COp → CLevel
  | .arith .mul | .arith .div => .multiplicative
  | .arith .add | .arith .sub => .additive
  | .compare .lt | .compare .gt | .compare .le | .compare .ge => .relational
  | .compare .eq | .compare .ne => .equality

inductive CPhrase
  | whole (level : CLevel)
  /-- The rest of a chain of operations, when `left` is what comes before. -/
  | onward (level : CLevel) (left : Expr)

@[simp] def CPhrase.level : CPhrase → CLevel
  | .whole level | .onward level _ => level

inductive CDerives : CPhrase → List CToken → Expr → Prop
  | number (n : UInt64) : CDerives (.whole .primary) [.number n] (.number n)
  | name (x : String) : CDerives (.whole .primary) [.name x] (.name x)
  | grouped {ts : List CToken} {e : Expr} : CDerives (.whole .conditional) ts e →
      CDerives (.whole .primary) (.openParen :: (ts ++ [.closeParen])) (.grouped e)
  | chain {level : CLevel} {ts us : List CToken} {l e : Expr} : level.isChain = true →
      CDerives (.whole level.operand) ts l → CDerives (.onward level l) us e →
      CDerives (.whole level) (ts ++ us) e
  | done (level : CLevel) (l : Expr) : CDerives (.onward level l) [] l
  | operation {level : CLevel} {o : COp} {ts us : List CToken} {l r e : Expr} : o.level = level →
      CDerives (.whole level.operand) ts r → CDerives (.onward level (o.apply l r)) us e →
      CDerives (.onward level l) (.op o :: (ts ++ us)) e
  | always {ts : List CToken} {e : Expr} : CDerives (.whole .equality) ts e → CDerives (.whole .conditional) ts e
  | conditional {ts us vs : List CToken} {c t f : Expr} : CDerives (.whole .equality) ts c →
      CDerives (.whole .conditional) us t → CDerives (.whole .conditional) vs f →
      CDerives (.whole .conditional) (ts ++ .question :: (us ++ .colon :: vs)) (.conditional c t f)

/-! ## Where an expression ends -/

/-- Whether an expression of a level goes on with this token. -/
def CToken.extendsLevel (level : CLevel) : CToken → Bool
  | .op o => o.level.rank ≤ level.rank
  | .question => CLevel.conditional.rank ≤ level.rank
  | .number _ | .name _ | .openParen | .closeParen | .colon => false

def CLevel.EndsAt (level : CLevel) (rest : List CToken) : Prop := ∀ t ∈ rest.head?, t.extendsLevel level = false

theorem CLevel.EndsAt.cons {level : CLevel} {t : CToken} {rest : List CToken} (h : t.extendsLevel level = false) :
    level.EndsAt (t :: rest) := by
  intro u hu
  cases hu
  exact h

theorem CLevel.EndsAt.mono {level level' : CLevel} {rest : List CToken} (h : level.EndsAt rest)
    (hle : level'.rank ≤ level.rank) : level'.EndsAt rest := by
  intro t ht
  have := h t ht
  cases t with
  | op o => simp only [CToken.extendsLevel, decide_eq_false_iff_not] at this ⊢; omega
  | question => simp only [CToken.extendsLevel, decide_eq_false_iff_not] at this ⊢; omega
  | number n | name x | openParen | closeParen | colon => rfl

theorem CLevel.operand_rank_le (level : CLevel) : level.operand.rank ≤ level.rank := by cases level <;> decide

theorem COp.operand_rank_lt (o : COp) : o.level.operand.rank < o.level.rank := by
  cases o with
  | arith op => cases op <;> decide
  | compare op => cases op <;> decide

/-- Between the operands of a chain stand its operators, and they end an operand. -/
theorem CDerives.ends_operand {level : CLevel} {l e : Expr} {us rest : List CToken}
    (h : CDerives (.onward level l) us e) (hrest : level.EndsAt rest) : level.operand.EndsAt (us ++ rest) := by
  cases h with
  | done => exact hrest.mono level.operand_rank_le
  | @operation _ o _ _ _ _ _ hlevel _ _ =>
    subst hlevel
    exact .cons (by simpa [CToken.extendsLevel] using o.operand_rank_lt)

/-! ## No tokens have two trees -/

/-- Two phrases that begin the same tokens, each where the level ends, are the same. -/
theorem CDerives.unique {p : CPhrase} {ts us xs ys : List CToken} {e f : Expr} (h₁ : CDerives p ts e)
    (h₂ : CDerives p us f) (heq : ts ++ xs = us ++ ys) (hx : p.level.EndsAt xs) (hy : p.level.EndsAt ys) :
    ts = us ∧ e = f := by
  induction h₁ generalizing us f xs ys with
  | number n =>
    cases h₂ with
    | number m => simp_all
    | name x => simp at heq
    | grouped _ => simp at heq
    | chain hc _ _ => cases hc
  | name x =>
    cases h₂ with
    | number m => simp at heq
    | name y => simp_all
    | grouped _ => simp at heq
    | chain hc _ _ => cases hc
  | grouped _ ih =>
    cases h₂ with
    | number m => simp at heq
    | name y => simp at heq
    | grouped h =>
      simp only [List.cons_append, List.append_assoc, List.cons.injEq, true_and, List.nil_append] at heq
      obtain ⟨rfl, rfl⟩ := ih h heq (.cons rfl) (.cons rfl)
      exact ⟨rfl, rfl⟩
    | chain hc _ _ => cases hc
  | chain hc h hr ih ihr =>
    cases h₂ with
    | number m => cases hc
    | name y => cases hc
    | grouped _ => cases hc
    | always _ => cases hc
    | conditional _ _ _ => cases hc
    | chain _ h' hr' =>
      rw [List.append_assoc, List.append_assoc] at heq
      obtain ⟨rfl, rfl⟩ := ih h' heq (hr.ends_operand hx) (hr'.ends_operand hy)
      obtain ⟨rfl, rfl⟩ := ihr hr' (List.append_cancel_left heq) hx hy
      exact ⟨rfl, rfl⟩
  | done level l =>
    cases h₂ with
    | done => exact ⟨rfl, rfl⟩
    | operation hlevel _ _ =>
      subst hlevel
      simp only [List.nil_append] at heq
      subst heq
      simpa [CToken.extendsLevel] using hx _ rfl
  | operation hlevel h hr ih ihr =>
    cases h₂ with
    | done =>
      subst hlevel
      simp only [List.nil_append] at heq
      subst heq
      simpa [CToken.extendsLevel] using hy _ rfl
    | operation _ h' hr' =>
      simp only [List.cons_append, List.append_assoc, List.cons.injEq, CToken.op.injEq] at heq
      rcases heq with ⟨rfl, heq⟩
      obtain ⟨rfl, rfl⟩ := ih h' heq (hr.ends_operand hx) (hr'.ends_operand hy)
      obtain ⟨rfl, rfl⟩ := ihr hr' (List.append_cancel_left heq) hx hy
      exact ⟨rfl, rfl⟩
  | always h ih =>
    cases h₂ with
    | chain hc _ _ => cases hc
    | always h' => exact ih h' heq (hx.mono (by decide)) (hy.mono (by decide))
    | conditional hc _ _ =>
      rw [List.append_assoc] at heq
      obtain ⟨rfl, -⟩ := ih hc heq (hx.mono (by decide)) (.cons rfl)
      obtain rfl := List.append_cancel_left heq
      simpa [CToken.extendsLevel] using hx _ rfl
  | conditional h ht hf ih iht ihf =>
    cases h₂ with
    | chain hc _ _ => cases hc
    | always h' =>
      rw [List.append_assoc] at heq
      obtain ⟨rfl, -⟩ := ih h' heq (.cons rfl) (hy.mono (by decide))
      obtain rfl := List.append_cancel_left heq
      simpa [CToken.extendsLevel] using hy _ rfl
    | conditional h' ht' hf' =>
      simp only [List.append_assoc, List.cons_append] at heq
      obtain ⟨rfl, rfl⟩ := ih h' heq (.cons rfl) (.cons rfl)
      have heq := List.append_cancel_left heq
      simp only [List.cons.injEq, true_and] at heq
      obtain ⟨rfl, rfl⟩ := iht ht' heq (.cons rfl) (.cons rfl)
      have heq := List.append_cancel_left heq
      simp only [List.cons.injEq, true_and] at heq
      obtain ⟨rfl, rfl⟩ := ihf hf' heq hx hy
      exact ⟨rfl, rfl⟩

end ScriptToC
