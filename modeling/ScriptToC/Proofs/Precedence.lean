/-
  ScriptToC.Proofs.Precedence — C reads the text of an expression as the same expression.

  Parentheses are written where the script has them and are never computed from precedence. That
  they suffice is due to the trees: operands have the shape that scripts give them
  (`Expr.Shaped`), parentheses around names, numbers and parentheses matter nowhere, and C has two
  levels where scripts have one comparison. Main statement: `c_reads_the_same_expression`.
-/

import ScriptToC.Proofs.CGrammar
import ScriptToC.Proofs.Grouping
import ScriptToC.Proofs.Lexing
import ScriptToC.Proofs.ProgramReading
import ScriptToC.Proofs.Shape

namespace ScriptToC

/-! ## Parentheses that are written, and none at all -/

/-- Without the parentheses that are not written: those around a name, a number or parentheses. -/
def Expr.stripped : Expr → Expr
  | .number n => .number n
  | .name x => .name x
  | .arith op l r => .arith op l.stripped r.stripped
  | .compare op l r => .compare op l.stripped r.stripped
  | .conditional c t f => .conditional c.stripped t.stripped f.stripped
  | .grouped e => if e.isOperation then .grouped e.stripped else e.stripped

/-- The operations alone: the order in which an expression is computed. -/
def Expr.ungrouped : Expr → Expr
  | .number n => .number n
  | .name x => .name x
  | .arith op l r => .arith op l.ungrouped r.ungrouped
  | .compare op l r => .compare op l.ungrouped r.ungrouped
  | .conditional c t f => .conditional c.ungrouped t.ungrouped f.ungrouped
  | .grouped e => e.ungrouped

theorem Expr.ungrouped_stripped (e : Expr) : e.stripped.ungrouped = e.ungrouped := by
  induction e with
  | number n => rfl
  | name x => rfl
  | arith op l r ihl ihr => simp [Expr.stripped, Expr.ungrouped, ihl, ihr]
  | compare op l r ihl ihr => simp [Expr.stripped, Expr.ungrouped, ihl, ihr]
  | conditional c t f ihc iht ihf => simp [Expr.stripped, Expr.ungrouped, ihc, iht, ihf]
  | grouped e ih =>
    unfold Expr.stripped
    split <;> simp [Expr.ungrouped, ih]

/-- The tokens of an expression as it is written in C. -/
def Expr.cTokens : Expr → List CToken
  | .number n => [.number n]
  | .name x => [.name x]
  | .arith op l r => l.cTokens ++ .op (.arith op) :: r.cTokens
  | .compare op l r => l.cTokens ++ .op (.compare op) :: r.cTokens
  | .conditional c t f => c.cTokens ++ .question :: (t.cTokens ++ .colon :: f.cTokens)
  | .grouped e => if e.isOperation then .openParen :: (e.cTokens ++ [.closeParen]) else e.cTokens

/-! ## The text has these tokens -/

namespace CToken

theorem scan_blank {c : Char} (h : c.isWhitespace = true) (tail : List Char) : scan (c :: tail) = scan tail := by
  rw [scan, if_pos h]

theorem scan_lexeme {c : Char} {tail w rest : List Char} {t : CToken} (hc : c.isWhitespace = false)
    (hm : munch c tail = (w, rest)) (ht : ofSpelling? w = some t) :
    scan (c :: tail) = (scan rest).map (t :: ·) := by
  rw [scan, if_neg (by simp [hc]), hm]
  simp only [ht]
  cases scan rest <;> rfl

end CToken

theorem not_isWhitespace {p : Char → Bool} {c : Char} (hc : p c = true)
    (hp : [' ', '\t', '\r', '\n'].all (fun d => !p d) = true) : c.isWhitespace = false :=
  kinds_apart (by simp [Char.isWhitespace, or_assoc]) hp hc

/-- A text that goes on no lexeme in front of it. -/
def Apart (rest : List Char) : Prop := ∀ c ∈ rest.head?, c = ' ' ∨ c = ')'

theorem apart_space (rest : List Char) : Apart (' ' :: rest) := by
  intro u hu
  cases hu
  exact .inl rfl

theorem apart_closeParen (rest : List Char) : Apart (')' :: rest) := by
  intro u hu
  cases hu
  exact .inr rfl

/-- A text has these tokens, whatever stands apart from it. -/
def CToken.Scans (text : List Char) (ts : List CToken) : Prop :=
  ∀ rest, Apart rest → scan (text ++ rest) = (scan rest).map (ts ++ ·)

theorem CToken.Scans.scan_eq {text : List Char} {ts : List CToken} (h : Scans text ts) : scan text = some ts := by
  have hall := h [] (by simp [Apart])
  rw [List.append_nil, CToken.scan] at hall
  simpa using hall

/-- A lexeme that is a run of characters of a kind. -/
theorem CToken.scans_run {p : Char → Bool} {c : Char} {cs : List Char} {t : CToken} (hspace : p ' ' = false)
    (hclose : p ')' = false) (hc : c.isWhitespace = false) (hcs : ∀ d ∈ cs, p d = true)
    (hm : ∀ tail, munch c tail = (c :: tail.takeWhile p, tail.dropWhile p)) (ht : ofSpelling? (c :: cs) = some t) :
    Scans (c :: cs) [t] := by
  intro rest h
  refine scan_lexeme hc ?_ ht
  rw [List.append_eq, hm, List.takeWhile_append_of_pos hcs, List.dropWhile_append_of_pos hcs]
  rcases rest with _ | ⟨d, rest⟩
  · simp
  · rcases h d rfl with rfl | rfl
    · simp [hspace]
    · simp [hclose]

/-! ### Numbers -/

/-- A number is written without leading zeros. -/
theorem toDigits_eq_zero (n : Nat) : (Nat.toDigits 10 n).head? = some '0' → Nat.toDigits 10 n = ['0'] := by
  induction n using Nat.strongRecOn with
  | _ n ih =>
    intro h
    by_cases hn : n < 10
    · rw [Nat.toDigits_of_lt_base hn] at h ⊢
      simpa using h
    · obtain ⟨d, ds, hds⟩ := List.exists_cons_of_ne_nil (Nat.toDigits_ne_nil (n := n / 10) (b := 10))
      have hhead : (Nat.toDigits 10 (n / 10)).head? = some '0' := by
        rw [Nat.toDigits_of_base_le (by decide) (by omega), hds] at h
        rw [hds]
        exact h
      have hzero := congrArg (Nat.ofDigitChars 10 · 0) (ih (n / 10) (by omega) hhead)
      simp only [Nat.ofDigitChars_ten_toDigits] at hzero
      have : Nat.ofDigitChars 10 ['0'] 0 = 0 := by decide
      omega

theorem CToken.ofDigits?_numberText (n : UInt64) : CToken.ofDigits? (numberText n).toList = some (.number n) := by
  have hzero : ¬((numberText n).toList.head? = some '0' ∧ (numberText n).toList ≠ ['0']) := by
    rw [numberText, Nat.toList_repr]
    exact fun h => h.2 (toDigits_eq_zero _ h.1)
  rw [CToken.ofDigits?, if_neg hzero]
  simp [ofDigitChars_numberText, n.toNat_lt]

theorem CToken.scans_number (n : UInt64) : Scans (numberText n).toList [.number n] := by
  have hdigits := numberText_isDigit n
  have hof := ofDigits?_numberText n
  obtain ⟨c, cs, hcs⟩ := List.exists_cons_of_ne_nil (numberText_ne_nil n)
  rw [hcs] at hdigits hof ⊢
  obtain ⟨hc, hcs⟩ := List.forall_mem_cons.1 hdigits
  refine scans_run rfl rfl (not_isWhitespace hc rfl) hcs (munch_digit hc) ?_
  rw [ofSpelling?, if_pos hc, hof]

/-! ### Names -/

theorem CToken.scans_name {x : String} (hx : IsName x) : Scans x.toList [.name x] := by
  rcases hx with ⟨c, cs, hxs, hc, hcs⟩
  have hdigit := not_isDigit_of_isNameStart hc
  rw [hxs]
  refine scans_run rfl rfl (not_isWhitespace hc rfl) hcs (munch_name hc) ?_
  rw [ofSpelling?, if_neg (by simp [hdigit]), if_pos hc, ← hxs, String.ofList_toList]

/-! ### Symbols -/

/-- Operators are written with a space on either side. -/
theorem CToken.scan_spaced {c : Char} {w rest : List Char} {t : CToken} (hc : c.isWhitespace = false)
    (hm : munch c (w ++ ' ' :: rest) = (c :: w, ' ' :: rest)) (ht : ofSpelling? (c :: w) = some t) :
    scan (' ' :: c :: (w ++ ' ' :: rest)) = (scan rest).map (t :: ·) := by
  have hspace : ' '.isWhitespace = true := rfl
  rw [scan_blank hspace, scan_lexeme hc hm ht, scan_blank hspace]

theorem CToken.scan_arith (op : ArithOp) (rest : List Char) :
    scan (' ' :: (op.symbol.toList ++ ' ' :: rest)) = (scan rest).map (.op (.arith op) :: ·) := by
  cases op <;> exact scan_spaced rfl rfl rfl

theorem CToken.scan_compare (op : CompareOp) (rest : List Char) :
    scan (' ' :: (op.symbol.toList ++ ' ' :: rest)) = (scan rest).map (.op (.compare op) :: ·) := by
  cases op <;> exact scan_spaced rfl rfl rfl

theorem CToken.scan_question (rest : List Char) :
    scan (' ' :: (['?'] ++ ' ' :: rest)) = (scan rest).map (.question :: ·) :=
  scan_spaced (w := []) rfl rfl rfl

theorem CToken.scan_colon (rest : List Char) :
    scan (' ' :: ([':'] ++ ' ' :: rest)) = (scan rest).map (.colon :: ·) :=
  scan_spaced (w := []) rfl rfl rfl

/-- No symbol begins with a parenthesis and has a second character. -/
theorem munch_paren (c : Char) (h : c = '(' ∨ c = ')') (tail : List Char) : munch c tail = ([c], tail) := by
  rcases h with rfl | rfl <;> cases tail <;> simp [munch, isNameStart, joins]

theorem CToken.scan_openParen (rest : List Char) : scan ('(' :: rest) = (scan rest).map (.openParen :: ·) :=
  scan_lexeme rfl (munch_paren _ (.inl rfl) rest) rfl

theorem CToken.scan_closeParen (rest : List Char) : scan (')' :: rest) = (scan rest).map (.closeParen :: ·) :=
  scan_lexeme rfl (munch_paren _ (.inr rfl) rest) rfl

/-! ### Expressions -/

theorem CToken.Scans.spaced {l r symbol : List Char} {ts us : List CToken} {t : CToken} (hl : Scans l ts)
    (ht : ∀ rest, scan (' ' :: (symbol ++ ' ' :: rest)) = (scan rest).map (t :: ·)) (hr : Scans r us) :
    Scans (l ++ ' ' :: (symbol ++ ' ' :: r)) (ts ++ t :: us) := by
  intro rest h
  have htext : l ++ ' ' :: (symbol ++ ' ' :: r) ++ rest = l ++ ' ' :: (symbol ++ ' ' :: (r ++ rest)) := by simp
  rw [htext, hl _ (apart_space _), ht, hr rest h]
  simp [Function.comp_def]

theorem CToken.Scans.parens {text : List Char} {ts : List CToken} (htext : Scans text ts) :
    Scans ('(' :: (text ++ [')'])) (.openParen :: (ts ++ [.closeParen])) := by
  intro rest _
  rw [List.cons_append, List.append_assoc, scan_openParen, List.singleton_append, htext _ (apart_closeParen _),
    scan_closeParen]
  simp [Function.comp_def]

theorem Expr.scans {e : Expr} (hn : ∀ x ∈ e.names, IsName x) : CToken.Scans e.text.toList e.cTokens := by
  induction e with
  | number n => exact CToken.scans_number n
  | name x => exact CToken.scans_name (hn x (by simp [Expr.names]))
  | arith op l r ihl ihr =>
    obtain ⟨hl, hr⟩ := List.forall_mem_append.1 hn
    simpa [Expr.text, Expr.cTokens] using (ihl hl).spaced (CToken.scan_arith op) (ihr hr)
  | compare op l r ihl ihr =>
    obtain ⟨hl, hr⟩ := List.forall_mem_append.1 hn
    simpa [Expr.text, Expr.cTokens] using (ihl hl).spaced (CToken.scan_compare op) (ihr hr)
  | conditional c t f ihc iht ihf =>
    obtain ⟨hct, hf⟩ := List.forall_mem_append.1 hn
    obtain ⟨hc, ht⟩ := List.forall_mem_append.1 hct
    have hbranches := (iht ht).spaced CToken.scan_colon (ihf hf)
    simpa [Expr.text, Expr.cTokens] using (ihc hc).spaced CToken.scan_question hbranches
  | grouped e ih =>
    unfold Expr.text Expr.cTokens
    split
    · simpa using (ih hn).parens
    · exact ih hn

/-! ## The tokens derive the tree -/

/-- All binary operators of C group to the left. -/
theorem CLevel.groupsLeft {level : CLevel} (hlevel : level.isChain = true) :
    GroupsLeft CToken.op COp.apply (fun o => o.level = level) (CDerives (.whole level.operand))
      (CDerives (.whole level)) (fun l => CDerives (.onward level l)) where
  done := .done level
  operation := .operation
  chain := .chain hlevel
  onward_cases h := by
    cases h with
    | done => exact .inl ⟨rfl, rfl⟩
    | operation ho hr hrest => exact .inr ⟨_, _, _, _, rfl, ho, hr, hrest⟩
  whole_cases h := by
    cases h with
    | chain _ hl hrest => exact ⟨_, _, _, rfl, hl, hrest⟩
    | number n | name x | grouped _ | always _ | conditional _ _ _ => cases hlevel

/-- An operand of a level is an expression of the level. -/
theorem CDerives.widen {level : CLevel} {ts : List CToken} {e : Expr} (h : CDerives (.whole level.operand) ts e) :
    CDerives (.whole level) ts e := by
  cases level with
  | primary => exact h
  | multiplicative | additive | relational | equality => exact (CLevel.groupsLeft rfl).widen h
  | conditional => exact .always h

theorem CLevel.eq_of_rank_eq (level level' : CLevel) (h : level.rank = level'.rank) : level = level' := by
  cases level <;> cases level' <;> first | rfl | cases h

theorem CLevel.operand_rank (level : CLevel) : level.operand.rank = level.rank - 1 := by cases level <;> rfl

/-- An expression of a level is one of every wider level. -/
theorem CDerives.mono {level level' : CLevel} {ts : List CToken} {e : Expr} (h : CDerives (.whole level) ts e)
    (hle : level.rank ≤ level'.rank) : CDerives (.whole level') ts e :=
  of_rank_le (P := fun level => CDerives (.whole level) ts e) CLevel.eq_of_rank_eq CLevel.operand_rank
    (fun _ => CDerives.widen) hle h

theorem COp.isChain_level (o : COp) : o.level.isChain = true := by
  cases o with
  | arith op => cases op <;> rfl
  | compare op => cases op <;> rfl

/-- The widest level at which C reads an expression of a tier. -/
def Tier.cLevel : Tier → CLevel
  | .atom => .primary
  | .product => .multiplicative
  | .sum => .additive
  | .comparison => .equality
  | .conditional => .conditional

theorem Tier.cLevel_rank_lt {t t' : Tier} (h : t.rank < t'.rank) : t.cLevel.rank < t'.cLevel.rank := by
  revert h
  cases t <;> cases t' <;> decide

theorem Tier.cLevel_rank_le {t t' : Tier} (h : t.rank ≤ t'.rank) : t.cLevel.rank ≤ t'.cLevel.rank := by
  revert h
  cases t <;> cases t' <;> decide

theorem Tier.cLevel_rank_le_conditional (t : Tier) : t.cLevel.rank ≤ CLevel.conditional.rank := by
  cases t <;> decide

theorem ArithOp.cLevel_tier (op : ArithOp) : op.tier.cLevel = (COp.arith op).level := by cases op <;> rfl

theorem CompareOp.level_rank_le (op : CompareOp) : (COp.compare op).level.rank ≤ CLevel.equality.rank := by
  cases op <;> decide

theorem CompareOp.additive_rank_le (op : CompareOp) :
    CLevel.additive.rank ≤ (COp.compare op).level.operand.rank := by
  cases op <;> decide

theorem Expr.tier_of_not_isOperation {e : Expr} (h : ¬e.isOperation = true) : e.tier = .atom := by
  cases e <;> first | rfl | exact absurd rfl h

theorem Expr.Shaped.cDerives {e : Expr} (h : e.Shaped) : CDerives (.whole e.tier.cLevel) e.cTokens e.stripped := by
  induction e with
  | number n => exact .number n
  | name x => exact .name x
  | arith op l r ihl ihr =>
    rcases h with ⟨hl, hr, hlRank, hrRank⟩
    have hlRank := Tier.cLevel_rank_le hlRank
    have hrRank := Tier.cLevel_rank_lt hrRank
    rw [op.cLevel_tier] at hlRank hrRank
    rw [Expr.tier, op.cLevel_tier]
    have hright : CDerives (.whole (COp.arith op).level.operand) r.cTokens r.stripped :=
      (ihr hr).mono (by rw [CLevel.operand_rank]; omega)
    exact (CLevel.groupsLeft (COp.isChain_level _)).snoc ((ihl hl).mono hlRank) rfl hright
  | compare op l r ihl ihr =>
    rcases h with ⟨hl, hr, hlRank, hrRank⟩
    have hop := op.additive_rank_le
    -- One comparison in a script is one in C, of the wider or of the tighter level.
    have hlSum : l.tier.rank ≤ Tier.sum.rank := Nat.le_of_lt_succ hlRank
    have hrSum : r.tier.rank ≤ Tier.sum.rank := Nat.le_of_lt_succ hrRank
    have hlLevel := ((ihl hl).mono (Nat.le_trans (Tier.cLevel_rank_le hlSum) hop)).widen
    have hrLevel := (ihr hr).mono (Nat.le_trans (Tier.cLevel_rank_le hrSum) hop)
    have hcompare := (CLevel.groupsLeft (COp.isChain_level _)).snoc hlLevel rfl hrLevel
    exact hcompare.mono op.level_rank_le
  | conditional c t f ihc iht ihf =>
    rcases h with ⟨⟨hc, ht, hf⟩, hcRank, -, -⟩
    have hcLevel : CDerives (.whole .equality) c.cTokens c.stripped :=
      (ihc hc).mono (Nat.le_of_lt_succ (Tier.cLevel_rank_lt hcRank))
    exact .conditional hcLevel ((iht ht).mono t.tier.cLevel_rank_le_conditional)
      ((ihf hf).mono f.tier.cLevel_rank_le_conditional)
  | grouped e ih =>
    unfold Expr.cTokens Expr.stripped
    split
    · exact .grouped ((ih h).mono e.tier.cLevel_rank_le_conditional)
    · rename_i hatom
      rw [Expr.tier, ← Expr.tier_of_not_isOperation hatom]
      exact ih h

/-! ## Reading what is written -/

/-- C reads the text as this expression, if parentheses are forgotten. -/
def CReads (text : String) (f : Expr) : Prop :=
  ∃ ts e, CToken.scan text.toList = some ts ∧ CDerives (.whole .conditional) ts e ∧ f = e.ungrouped

theorem Expr.Shaped.cReads_iff {e : Expr} (h : e.Shaped) (hn : ∀ x ∈ e.names, IsName x) {f : Expr} :
    CReads e.text f ↔ f = e.ungrouped := by
  have hd : CDerives (.whole .conditional) e.cTokens e.stripped := h.cDerives.mono e.tier.cLevel_rank_le_conditional
  constructor
  · intro hreads
    rcases hreads with ⟨ts, g, hts, hg, rfl⟩
    rw [(e.scans hn).scan_eq] at hts
    cases hts
    have hend : CLevel.conditional.EndsAt [] := by simp [CLevel.EndsAt]
    obtain ⟨-, rfl⟩ := hg.unique hd rfl hend hend
    exact e.ungrouped_stripped
  · rintro rfl
    exact ⟨_, _, (e.scans hn).scan_eq, hd, e.ungrouped_stripped.symm⟩

/-- What is written for an expression of a script is an expression of C, the same one, and C reads it
    as no other. -/
theorem c_reads_the_same_expression {script : String} {lexed : Lexed} {p : Program} {e : Expr}
    (hlex : Lexed.ofString script = .ok lexed) (hp : Program.ofTokens none lexed.tokens = .ok p)
    (he : e ∈ p.exprs) (f : Expr) : CReads e.text f ↔ f = e.ungrouped := by
  obtain ⟨us, hsub, hd⟩ := (Program.derives_of_ofTokens hp).exprs e he
  have hnames := (Lexed.ofString_eq_ok_iff.1 hlex).isName
  exact hd.shaped.cReads_iff (fun x hx => hnames x (hsub (hd.names x hx)))

/-- The parentheses that C needs are kept, the others are not, and the condition comes first. -/
theorem c_reads_a_conditional_in_a_body :
    CReads "a > 0 ? (a - 1) * 2 : a"
      (.conditional (.compare .gt (.name "a") (.number 0))
        (.arith .mul (.arith .sub (.name "a") (.number 1)) (.number 2)) (.name "a")) := by
  let e : Expr := .conditional (.compare .gt (.name "a") (.number 0))
    (.arith .mul (.grouped (.arith .sub (.name "a") (.number 1))) (.number 2)) (.grouped (.name "a"))
  let tokens : List Token :=
    [.word .defWord, .name "f", .mark .openParen, .mark .closeParen, .mark .colon, .mark .openParen, .name "a",
      .arith .sub, .number 1, .mark .closeParen, .arith .mul, .number 2, .word .ifWord, .name "a", .compare .gt,
      .number 0, .word .elseWord, .mark .openParen, .name "a", .mark .closeParen]
  have hlex : Lexed.ofString "def f(): (a - 1) * 2 if a > 0 else (a)" = .ok ⟨tokens, ⟨[0]⟩⟩ :=
    Except.eq_ok_of_toOption (by decide +kernel)
  have hp : Program.ofTokens none tokens = .ok [.function "f" [] [.expr e]] :=
    Except.eq_ok_of_toOption (by decide +kernel)
  have he : e ∈ Program.exprs [.function "f" [] [.expr e]] := by simp [Program.exprs, Stmt.allExprs, Stmt.exprs]
  have htext : e.text = "a > 0 ? (a - 1) * 2 : a" := by decide
  exact htext ▸ (c_reads_the_same_expression hlex hp he _).2 rfl

end ScriptToC
