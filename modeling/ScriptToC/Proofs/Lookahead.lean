/-
  ScriptToC.Proofs.Lookahead — reading an expression takes what the grammar has, or is stuck.

  Reading that fails is stuck: some tokens have been taken and the next one is wrong (`Expr.Stuck`), and then
  it fails in front of it whatever else follows (`Expr.Stuck.fails`). There is no third outcome
  (`Expr.outcome`), so what is read is derived (`Expr.derives_of_read`).
-/

import ScriptToC.Proofs.ExprReading

namespace ScriptToC

open Cursor

instance Except.decEq {ε α : Type} [DecidableEq ε] [DecidableEq α] : DecidableEq (Except ε α)
  | .error e, .error f => decidable_of_iff (e = f) (by simp)
  | .ok a, .ok b => decidable_of_iff (a = b) (by simp)
  | .error _, .ok _ | .ok _, .error _ => isFalse nofun

/-! ## The next token -/

namespace Cursor

variable {c : Cursor} {t : Token}

theorem take?_eq_none_iff : c.take? t = none ↔ c.rest.head? ≠ some t := by
  constructor
  · intro hnone hhead
    obtain ⟨d, lt, hnext⟩ := next?_of_head? hhead
    simp [take?, hnext] at hnone
  · exact take?_eq_none

theorem expect_eq_fail (h : c.rest.head? ≠ some t) (x : Expectation) : c.expect t x = .error (c.fail x) := by
  rw [expect, take?_eq_none h]

/-- The wanted token is next, or another one is. -/
theorem expect_cases (c : Cursor) (t : Token) (x : Expectation) :
    (∃ d lt, c.expect t x = .ok ⟨t, d, lt⟩ ∧ c.Passes [t] d) ∨
      (c.expect t x = .error (c.fail x) ∧ c.rest.head? ≠ some t) := by
  by_cases hhead : c.rest.head? = some t
  · obtain ⟨d, _, hnext⟩ := next?_of_head? hhead
    have hp := passes_of_next? hnext
    obtain ⟨lt, hok⟩ := hp.expect x
    exact .inl ⟨d, lt, hok, hp⟩
  · exact .inr ⟨expect_eq_fail hhead x, hhead⟩

end Cursor

/-! ## Where reading is stuck -/

/-- The tokens begin the phrase, and it does not go on with `next`, in whose place `expected` is wanted. -/
inductive Expr.Stuck : Expr.Phrase → List Token → Option Token → Expectation → Prop
  | atom {next : Option Token} : (∀ t ∈ next, t.beginsExpr = false) → Stuck (.whole .atom) [] next .expression
  | inside {ts : List Token} {next : Option Token} {x : Expectation} : Stuck (.whole .conditional) ts next x →
      Stuck (.whole .atom) (.mark .openParen :: ts) next x
  | unclosed {ts : List Token} {next : Option Token} {e : Expr} : (Phrase.whole .conditional).Takes ts next e →
      next ≠ some (.mark .closeParen) → Stuck (.whole .atom) (.mark .openParen :: ts) next .closingParen
  /-- In the first operand, if there is any operator at all. -/
  | first {tier : Tier} {ts : List Token} {next : Option Token} {x : Expectation} : tier ≠ .atom →
      Stuck (.whole tier.operand) ts next x → Stuck (.whole tier) ts next x
  | chain {tier : Tier} {ts us : List Token} {next : Option Token} {l : Expr} {x : Expectation} :
      tier.isChain = true → (Phrase.whole tier.operand).Takes ts (us.head?.or next) l →
      Stuck (.onward tier l) us next x → Stuck (.whole tier) (ts ++ us) next x
  | operand {tier : Tier} {op : ArithOp} {ts : List Token} {next : Option Token} {l : Expr} {x : Expectation} :
      op.tier = tier → Stuck (.whole tier.operand) ts next x → Stuck (.onward tier l) (.arith op :: ts) next x
  | operation {tier : Tier} {op : ArithOp} {ts us : List Token} {next : Option Token} {l r : Expr}
      {x : Expectation} : op.tier = tier → (Phrase.whole tier.operand).Takes ts (us.head?.or next) r →
      Stuck (.onward tier (.arith op l r)) us next x → Stuck (.onward tier l) (.arith op :: (ts ++ us)) next x
  | compare {op : CompareOp} {ts us : List Token} {next : Option Token} {l : Expr} {x : Expectation} :
      (Phrase.whole .sum).Takes ts (some (.compare op)) l → Stuck (.whole .sum) us next x →
      Stuck (.whole .comparison) (ts ++ .compare op :: us) next x
  | condition {ts us : List Token} {next : Option Token} {t : Expr} {x : Expectation} :
      (Phrase.whole .comparison).Takes ts (some (.word .ifWord)) t → Stuck (.whole .comparison) us next x →
      Stuck (.whole .conditional) (ts ++ .word .ifWord :: us) next x
  | noElse {ts us : List Token} {next : Option Token} {c t : Expr} :
      (Phrase.whole .comparison).Takes ts (some (.word .ifWord)) t → (Phrase.whole .comparison).Takes us next c →
      next ≠ some (.word .elseWord) → Stuck (.whole .conditional) (ts ++ .word .ifWord :: us) next .elseBranch
  | otherwise {ts us vs : List Token} {next : Option Token} {c t : Expr} {x : Expectation} :
      (Phrase.whole .comparison).Takes ts (some (.word .ifWord)) t →
      (Phrase.whole .comparison).Takes us (some (.word .elseWord)) c → Stuck (.whole .comparison) vs next x →
      Stuck (.whole .conditional) (ts ++ .word .ifWord :: (us ++ .word .elseWord :: vs)) next x

/-- Reading a phrase at `c` fails at `d`. -/
def Expr.Phrase.Fails (c d : Cursor) (x : Expectation) : Expr.Phrase → Prop
  | .whole tier => Expr.read tier c = .error (d.fail x)
  | .onward tier left => ∀ start (lt : c.rest.length < start.rest.length),
      Expr.readOperations tier (⟨left, c, lt⟩ : Read Expr start) = .error (d.fail x)

theorem Expr.read_first {tier : Tier} (htier : tier ≠ .atom) {c : Cursor} {f : Failure}
    (h : Expr.read tier.operand c = .error f) : Expr.read tier c = .error f := by
  cases tier with
  | atom => exact absurd rfl htier
  | product | sum | comparison | conditional =>
    rw [Tier.operand] at h
    rw [Expr.read, h]
    rfl

/-- Whatever follows the wrong token, reading fails in front of it. -/
theorem Expr.Stuck.fails {p : Expr.Phrase} {ts : List Token} {next : Option Token} {x : Expectation}
    (h : Expr.Stuck p ts next x) : ∀ c d : Cursor, c.Passes ts d → d.rest.head? = next → p.Fails c d x := by
  induction h with
  | atom hnext =>
    intro c d hp hd
    rw [passes_nil.1 hp] at hd ⊢
    show Expr.read .atom c = _
    have hnot : ∀ t, c.rest.head? = some t → t.beginsExpr = false := fun t ht => hnext t (hd ▸ ht)
    rw [Expr.read]
    split
    · rename_i n c₁ h₁ hn
      exact absurd (hnot _ (passes_of_next? hn).head?) (by simp [Token.beginsExpr])
    · rename_i y c₁ h₁ hy
      exact absurd (hnot _ (passes_of_next? hy).head?) (by simp [Token.beginsExpr])
    · rename_i c₁ h₁ ho
      exact absurd (hnot _ (passes_of_next? ho).head?) (by simp [Token.beginsExpr])
    · rfl
  | inside _ ih =>
    intro c d hp hd
    obtain ⟨c₁, hopen, hp⟩ := hp.uncons
    obtain ⟨_, ho⟩ := hopen.next?
    have hin : Expr.read .conditional c₁ = _ := ih c₁ d hp hd
    show Expr.read .atom c = _
    rw [Expr.read]
    simp [ho, hin]
  | unclosed he hnext =>
    intro c d hp hd
    obtain ⟨c₁, hopen, hp⟩ := hp.uncons
    obtain ⟨_, ho⟩ := hopen.next?
    obtain ⟨_, hin⟩ := he.reads c₁ d hp hd
    show Expr.read .atom c = _
    rw [Expr.read]
    simp [ho, hin, expect_eq_fail (hd ▸ hnext)]
  | first htier _ ih => exact fun c d hp hd => Expr.read_first htier (ih c d hp hd)
  | chain htier hl _ ih =>
    intro c d hp hd
    obtain ⟨c₁, hp₁, hp₂⟩ := hp.split
    obtain ⟨lt, hleft⟩ := hl.reads c c₁ hp₁ (by rw [hp₂.head?_or, hd])
    have hrest := ih c₁ d hp₂ hd c lt
    show Expr.read _ c = _
    rw [Expr.read_chain htier]
    simp [hleft, hrest]
  | operand htier _ ih =>
    intro c d hp hd start lt
    obtain ⟨c₁, hop, hp⟩ := hp.uncons
    obtain ⟨_, ho⟩ := hop.next?
    have hright : Expr.read _ c₁ = _ := ih c₁ d hp hd
    rw [Expr.readOperations]
    simp [ho, htier, hright]
  | operation htier hr _ ih =>
    intro c d hp hd start lt
    obtain ⟨c₁, hop, hp⟩ := hp.uncons
    obtain ⟨c₂, hp₁, hp₂⟩ := hp.split
    obtain ⟨_, ho⟩ := hop.next?
    obtain ⟨_, hright⟩ := hr.reads c₁ c₂ hp₁ (by rw [hp₂.head?_or, hd])
    have hrest := ih c₂ d hp₂ hd start (by omega)
    rw [Expr.readOperations]
    simp [ho, htier, hright, hrest]
  | compare hl _ ih =>
    intro c d hp hd
    obtain ⟨c₁, hp₁, hp⟩ := hp.split
    obtain ⟨c₂, hop, hp₂⟩ := hp.uncons
    obtain ⟨_, hleft⟩ := hl.reads c c₁ hp₁ hop.head?
    obtain ⟨_, ho⟩ := hop.next?
    have hright : Expr.read .sum c₂ = _ := ih c₂ d hp₂ hd
    show Expr.read .comparison c = _
    rw [Expr.read]
    simp [hleft, ho, hright]
  | condition ht _ ih =>
    intro c d hp hd
    obtain ⟨c₁, hp₁, hp⟩ := hp.split
    obtain ⟨c₂, hif, hp₂⟩ := hp.uncons
    obtain ⟨_, htrue⟩ := ht.reads c c₁ hp₁ hif.head?
    obtain ⟨_, hi⟩ := hif.take?
    have hcond : Expr.read .comparison c₂ = _ := ih c₂ d hp₂ hd
    show Expr.read .conditional c = _
    rw [Expr.read]
    simp [htrue, hi, hcond]
  | noElse ht hc hnext =>
    intro c d hp hd
    obtain ⟨c₁, hp₁, hp⟩ := hp.split
    obtain ⟨c₂, hif, hp₂⟩ := hp.uncons
    obtain ⟨_, htrue⟩ := ht.reads c c₁ hp₁ hif.head?
    obtain ⟨_, hi⟩ := hif.take?
    obtain ⟨_, hcond⟩ := hc.reads c₂ d hp₂ hd
    show Expr.read .conditional c = _
    rw [Expr.read]
    simp [htrue, hi, hcond, expect_eq_fail (hd ▸ hnext)]
  | otherwise ht hc _ ih =>
    intro c d hp hd
    obtain ⟨c₁, hp₁, hp⟩ := hp.split
    obtain ⟨c₂, hif, hp⟩ := hp.uncons
    obtain ⟨c₃, hp₂, hp⟩ := hp.split
    obtain ⟨c₄, helse, hp₃⟩ := hp.uncons
    obtain ⟨_, htrue⟩ := ht.reads c c₁ hp₁ hif.head?
    obtain ⟨_, hi⟩ := hif.take?
    obtain ⟨_, hcond⟩ := hc.reads c₂ c₃ hp₂ helse.head?
    obtain ⟨_, he⟩ := helse.expect .elseBranch
    have hfalse : Expr.read .comparison c₄ = _ := ih c₄ d hp₃ hd
    show Expr.read .conditional c = _
    rw [Expr.read]
    simp [htrue, hi, hcond, he, hfalse]

/-! ## Every reading is one of the two -/

/-- Reading begins at `start`: it takes what the phrase takes, or it is stuck. -/
inductive Expr.Phrase.Outcome (p : Expr.Phrase) (start : Cursor) {c : Cursor} : Reading Expr c → Prop
  | taken {ts : List Token} {e : Expr} {d : Cursor} (lt : d.rest.length < c.rest.length) : start.Passes ts d →
      p.Takes ts d.rest.head? e → Outcome p start (.ok ⟨e, d, lt⟩)
  | stuck {ts : List Token} {d : Cursor} {x : Expectation} : start.Passes ts d →
      Expr.Stuck p ts d.rest.head? x → Outcome p start (.error (d.fail x))

namespace Expr.Phrase.Outcome

variable {p q : Expr.Phrase} {start c d : Cursor} {ts : List Token}

/-- Reading is stuck where its first part is, and goes on behind what the first part takes. -/
theorem bind {c' : Cursor} {reading : Reading Expr c'} {k : Read Expr c' → Reading Expr c} (h : q.Outcome d reading)
    (hstuck : ∀ us e x, d.Passes us e → Expr.Stuck q us e.rest.head? x →
      p.Outcome start (.error (e.fail x) : Reading Expr c))
    (htaken : ∀ us r e lt, d.Passes us e → q.Takes us e.rest.head? r → p.Outcome start (k ⟨r, e, lt⟩)) :
    p.Outcome start (reading >>= k) := by
  cases h with
  | stuck hp hs => exact hstuck _ _ _ hp hs
  | taken lt hp ht => exact htaken _ _ _ lt hp ht

/-- What goes on behind some tokens of a phrase. -/
theorem behind {reading : Reading Expr c} (h : q.Outcome d reading) (hp : start.Passes ts d)
    (hstuck : ∀ us next x, d.rest.head? = us.head?.or next → Expr.Stuck q us next x → Expr.Stuck p (ts ++ us) next x)
    (htaken : ∀ us next e, d.rest.head? = us.head?.or next → q.Takes us next e → p.Takes (ts ++ us) next e) :
    p.Outcome start reading := by
  cases h with
  | stuck hp₂ hs => exact .stuck (hp.trans hp₂) (hstuck _ _ _ hp₂.head?_or hs)
  | taken lt hp₂ he => exact .taken lt (hp.trans hp₂) (htaken _ _ _ hp₂.head?_or he)

theorem chain {tier : Tier} (htier : tier.isChain = true)
    (hleft : (Phrase.whole tier.operand).Outcome c (Expr.read tier.operand c))
    (hrest : ∀ left c₁ h₁,
      (Phrase.onward tier left).Outcome c₁ (Expr.readOperations tier (⟨left, c₁, h₁⟩ : Read Expr c))) :
    (Phrase.whole tier).Outcome c (Expr.read tier c) := by
  have hne : tier ≠ .atom := by
    rintro rfl
    cases htier
  rw [Expr.read_chain htier]
  refine hleft.bind (fun _ _ _ hp hs => .stuck hp (.first hne hs)) (fun ts l c₁ h₁ hp hl => ?_)
  exact (hrest l c₁ h₁).behind hp (fun _ _ _ hnext hs => .chain htier (hnext ▸ hl) hs)
    (fun _ _ _ hnext he => .chain htier (hnext ▸ hl) he)

end Expr.Phrase.Outcome

theorem Expr.outcome_all :
    (∀ tier c, (Phrase.whole tier).Outcome c (Expr.read tier c)) ∧
      ∀ tier c (left : Read Expr c),
        (Phrase.onward tier left.value).Outcome left.next (Expr.readOperations tier left) := by
  apply Expr.read.mutual_induct
    (fun tier c => (Phrase.whole tier).Outcome c (Expr.read tier c))
    (fun tier c left => (Phrase.onward tier left.value).Outcome left.next (Expr.readOperations tier left))
  case case1 => -- a conditional
    intro c ihTrue ihCondition ihFalse
    rw [Expr.read]
    refine ihTrue.bind (fun _ _ _ hp hs => .stuck hp (.first (by simp) hs)) (fun ts t c₁ h₁ hp ht => ?_)
    dsimp only
    split
    · rename_i hif
      exact .taken h₁ hp (ht.always (take?_eq_none_iff.1 hif))
    · rename_i v c₂ h₂ hif
      have hif := passes_of_take? hif
      rw [hif.head?] at ht
      refine (ihCondition c₁ h₁ c₂ h₂).bind
        (fun _ _ _ hp₂ hs => .stuck (hp.trans (hif.cons hp₂)) (.condition ht hs)) (fun us d c₃ h₃ hp₂ hc => ?_)
      rcases expect_cases c₃ (.word .elseWord) .elseBranch with ⟨c₄, h₄, helse, hp₄⟩ | ⟨helse, hnext⟩
      · rw [hp₄.head?] at hc
        simp only [helse, Except.ok_bind]
        exact (ihFalse c₁ h₁ c₂ h₂ c₃ h₃ c₄ h₄).bind
          (fun _ _ _ hp₅ hs => .stuck (hp.trans (hif.cons (hp₂.trans (hp₄.cons hp₅)))) (.otherwise ht hc hs))
          (fun _ _ _ h₅ hp₅ hf =>
            .taken _ (hp.trans (hif.cons (hp₂.trans (hp₄.cons hp₅)))) (ht.conditional hc hf))
      · simp only [helse, Except.error_bind]
        exact .stuck (hp.trans (hif.cons hp₂)) (.noElse ht hc hnext)
  case case2 => -- a comparison
    intro c ihLeft ihRight
    rw [Expr.read]
    refine ihLeft.bind (fun _ _ _ hp hs => .stuck hp (.first (by simp) hs)) (fun ts l c₁ h₁ hp hl => ?_)
    dsimp only
    split
    · rename_i op c₂ h₂ hop
      have hop := passes_of_next? hop
      rw [hop.head?] at hl
      exact (ihRight c₁ h₁ c₂ h₂).bind
        (fun _ _ _ hp₂ hs => .stuck (hp.trans (hop.cons hp₂)) (.compare hl hs))
        (fun _ _ _ h₃ hp₂ hr => .taken _ (hp.trans (hop.cons hp₂)) (hl.compare hr))
    · rename_i hno
      refine .taken h₁ hp (hl.alone (fun op hop => ?_))
      obtain ⟨c₂, h₂, hnext⟩ := next?_of_head? hop
      exact hno op c₂ h₂ hnext
  case case3 => -- a sum
    intro c ihLeft ihRest
    exact .chain rfl ihLeft ihRest
  case case4 => -- a product
    intro c ihLeft ihRest
    exact .chain rfl ihLeft ihRest
  case case5 => -- a number
    intro c n c₁ h₁ hn
    rw [Expr.read]
    simp only [hn]
    exact .taken h₁ (passes_of_next? hn) (.number n)
  case case6 => -- a name
    intro c x c₁ h₁ hx
    rw [Expr.read]
    simp only [hx]
    exact .taken h₁ (passes_of_next? hx) (.name x)
  case case7 => -- parentheses
    intro c c₁ h₁ ho ih
    rw [Expr.read]
    simp only [ho]
    have ho := passes_of_next? ho
    refine ih.bind (fun _ _ _ hp hs => .stuck (ho.cons hp) (.inside hs)) (fun ts e c₂ h₂ hp he => ?_)
    rcases expect_cases c₂ (.mark .closeParen) .closingParen with ⟨c₃, h₃, hclose, hp₃⟩ | ⟨hclose, hnext⟩
    · rw [hp₃.head?] at he
      simp only [hclose, Except.ok_bind]
      exact .taken _ (ho.cons (hp.trans hp₃)) he.grouped
    · simp only [hclose, Except.error_bind]
      exact .stuck (ho.cons hp) (.unclosed he hnext)
  case case8 => -- no expression
    intro c hnum hname hopen
    have hnot : ∀ t ∈ c.rest.head?, t.beginsExpr = false := by
      intro t ht
      obtain ⟨c₁, h₁, hn⟩ := next?_of_head? ht
      cases t with
      | number n => exact absurd hn (hnum n c₁ h₁)
      | name x => exact absurd hn (hname x c₁ h₁)
      | mark m => cases m <;> first | rfl | exact absurd hn (hopen c₁ h₁)
      | arith op | compare op | word k | newline => rfl
    have hs := Expr.Stuck.atom hnot
    have hfails : Expr.read .atom c = _ := hs.fails c c (.refl c) rfl
    rw [hfails]
    exact .stuck (.refl c) hs
  case case9 => -- one more operation
    intro c left op c₁ h₁ hop ihRight ihRest
    rw [Expr.readOperations]
    simp only [hop, if_true]
    have hop := passes_of_next? hop
    refine ihRight.bind (fun _ _ _ hp hs => .stuck (hop.cons hp) (.operand rfl hs)) (fun ts r c₂ h₂ hp hr => ?_)
    exact (ihRest r c₂ h₂).behind (hop.cons hp) (fun _ _ _ hnext hs => .operation rfl (hnext ▸ hr) hs)
      (fun _ _ _ hnext he => .operation rfl (hnext ▸ hr) he)
  case case10 => -- an operator of another tier
    intro tier c left op c₁ h₁ hop hne
    rw [Expr.readOperations]
    simp only [hop, hne, if_false]
    refine .taken left.shorter (.refl _) (.done (fun op' hop' => ?_))
    rw [(passes_of_next? hop).head?] at hop'
    cases hop'
    exact hne
  case case11 => -- no operator
    intro tier c left hno
    rw [Expr.readOperations]
    split
    · rename_i op c₁ h₁ hop
      exact absurd hop (hno op c₁ h₁)
    · refine .taken left.shorter (.refl _) (.done (fun op hop => ?_))
      obtain ⟨c₁, h₁, hnext⟩ := next?_of_head? hop
      exact absurd hnext (hno op c₁ h₁)

theorem Expr.outcome (tier : Tier) (c : Cursor) : (Phrase.whole tier).Outcome c (Expr.read tier c) :=
  Expr.outcome_all.1 tier c

theorem Expr.derives_of_read {tier : Tier} {c : Cursor} {r : Read Expr c} (h : Expr.read tier c = .ok r) :
    ∃ ts, c.Passes ts r.next ∧ Expr.Derives (.whole tier) ts r.value := by
  have houtcome := Expr.outcome tier c
  rw [h] at houtcome
  cases houtcome with
  | taken lt hp he => exact ⟨_, hp, he.derives⟩

end ScriptToC
