/-
  ScriptToC.Proofs.Readback — code can be read back: two scripts have the same code only if they are the
  same program, but for parentheses that are not written (`same_code_iff_stripped`).

  A text is read from its front. A statement goes up to its first semicolon, and the head of a function up
  to its first brace. In front of the semicolon stands a value, which is read as C reads it, and in front
  of the value a target, `return` or nothing. Which of them it is shows in the second word
  (`Lead.read_text`): that of an expression is an operator.
-/

import ScriptToC.Compile
import ScriptToC.Proofs.Stripping

namespace ScriptToC

/-! ## Cutting a text -/

theorem run_unique {p : Char → Bool} {xs ys r s : List Char} (hxs : ∀ x ∈ xs, p x = true) (hys : ∀ y ∈ ys, p y = true)
    (hr : ∀ c ∈ r.head?, p c = false) (hs : ∀ c ∈ s.head?, p c = false) (h : xs ++ r = ys ++ s) :
    xs = ys ∧ r = s := by
  obtain ⟨htake, hdrop⟩ := takeWhile_run hxs hr
  obtain ⟨htake', hdrop'⟩ := takeWhile_run hys hs
  rw [h] at htake hdrop
  exact ⟨htake.symm.trans htake', hdrop.symm.trans hdrop'⟩

theorem IsName.unique {x y : String} (hx : IsName x) (hy : IsName y) {r s : List Char}
    (hr : ∀ c ∈ r.head?, ScriptToC.isNameChar c = false) (hs : ∀ c ∈ s.head?, ScriptToC.isNameChar c = false)
    (h : x.toList ++ r = y.toList ++ s) : x = y ∧ r = s := by
  obtain ⟨hname, hrest⟩ := run_unique hx.isNameChar hy.isNameChar hr hs h
  exact ⟨String.toList_inj.1 hname, hrest⟩

/-- The characters where a statement or the head of a function ends. -/
def isDelimiter (c : Char) : Bool := c == ';' || c == '\x7b'

/-- Two texts that go on alike are cut at their first delimiter. -/
theorem cut_unique {xs ys r s rest rest' : List Char} {c d : Char} (hxs : xs.any isDelimiter = false)
    (hys : ys.any isDelimiter = false) (hc : isDelimiter c = true) (hd : isDelimiter d = true)
    (h : xs ++ c :: r ++ rest = ys ++ d :: s ++ rest') : xs = ys ∧ c = d ∧ r ++ rest = s ++ rest' := by
  rw [List.append_assoc, List.append_assoc] at h
  obtain ⟨hfront, hbehind⟩ := @run_unique (fun x => !isDelimiter x) xs ys _ _
    (by simpa using hxs) (by simpa using hys) (by simp [hc]) (by simp [hd]) h
  exact ⟨hfront, List.cons.inj hbehind⟩

/-! ## Expressions -/

/-- An expression whose text can be read: it has the shape of an expression of a script, and its names are
    names. -/
structure Expr.Readable (e : Expr) : Prop where
  shaped : e.Shaped
  names : ∀ x ∈ e.names, IsName x

theorem Expr.Readable.stripped_eq {e f : Expr} (he : e.Readable) (hf : f.Readable) (h : e.text = f.text) :
    e.stripped = f.stripped := by
  have hscan := (e.scans he.names).scan_eq
  rw [h, (f.scans hf.names).scan_eq, Option.some.injEq] at hscan
  have hde := he.shaped.cDerives.mono e.tier.cLevel_rank_le_conditional
  have hdf := hf.shaped.cDerives.mono f.tier.cLevel_rank_le_conditional
  have hend : CLevel.conditional.EndsAt [] := by simp [CLevel.EndsAt]
  exact (hde.unique hdf (by rw [hscan]) hend hend).2

/-- The operators that can be the second word of an expression. -/
def operators : List (List Char) := ["+", "-", "*", "/", "==", "!=", "<", ">", "<=", ">=", "?"].map String.toList

theorem operators_no_space : ∀ op ∈ operators, ' ' ∉ op := by decide

theorem ArithOp.symbol_mem (op : ArithOp) : op.symbol.toList ∈ operators := by cases op <;> decide

theorem CompareOp.symbol_mem (op : CompareOp) : op.symbol.toList ∈ operators := by cases op <;> decide

/-- The text is one word, or its second word is an operator. -/
def OperatorSecond (cs : List Char) : Prop :=
  ' ' ∉ cs ∨ ∃ w op r, cs = w ++ ' ' :: (op ++ ' ' :: r) ∧ ' ' ∉ w ∧ op ∈ operators

theorem OperatorSecond.then {cs op : List Char} (h : OperatorSecond cs) (hop : op ∈ operators) (r : List Char) :
    OperatorSecond (cs ++ ' ' :: (op ++ ' ' :: r)) := by
  rcases h with h | ⟨w, op', r', rfl, hw, hop'⟩
  · exact .inr ⟨cs, op, r, rfl, h, hop⟩
  · exact .inr ⟨w, op', r' ++ ' ' :: (op ++ ' ' :: r), by simp, hw, hop'⟩

theorem OperatorSecond.parens {cs : List Char} (h : OperatorSecond cs) : OperatorSecond ('(' :: (cs ++ [')'])) := by
  rcases h with h | ⟨w, op, r, rfl, hw, hop⟩
  · exact .inl (by simp [h])
  · exact .inr ⟨'(' :: w, op, r ++ [')'], by simp, by simp [hw], hop⟩

theorem Expr.operatorSecond (e : Expr) (hn : ∀ x ∈ e.names, IsName x) : OperatorSecond e.text.toList := by
  induction e with
  | number n =>
    refine .inl (fun hmem => ?_)
    have := numberText_isDigit n ' ' hmem
    simp at this
  | name x => exact .inl ((hn x (by simp [Expr.names])).not_mem rfl)
  | arith op l r ihl _ =>
    simpa [Expr.text] using (ihl (List.forall_mem_append.1 hn).1).then op.symbol_mem r.text.toList
  | compare op l r ihl _ =>
    simpa [Expr.text] using (ihl (List.forall_mem_append.1 hn).1).then op.symbol_mem r.text.toList
  | conditional c t f ihc _ _ =>
    have hc := (List.forall_mem_append.1 (List.forall_mem_append.1 hn).1).1
    have hquestion : ['?'] ∈ operators := by decide
    simpa [Expr.text] using (ihc hc).then hquestion (t.text.toList ++ ' ' :: ':' :: ' ' :: f.text.toList)
  | grouped e ih =>
    unfold Expr.text
    split
    · simpa using (ih hn).parens
    · exact ih hn

/-- Whether a character can begin a name, a number or parentheses. -/
def opensOperand (c : Char) : Bool := c.isDigit || isNameStart c || c == '('

theorem opensOperand_operators {op : List Char} (hop : op ∈ operators) {c : Char} (hc : op.head? = some c) :
    opensOperand c = false := by
  have hall : operators.all (fun op => op.head?.all fun c => !opensOperand c) = true := by decide
  simpa [hc] using List.all_eq_true.1 hall op hop

theorem IsName.opens {x : String} (h : IsName x) : ∃ c, x.toList.head? = some c ∧ opensOperand c = true := by
  rcases h with ⟨c, cs, hx, hc, -⟩
  exact ⟨c, by rw [hx]; rfl, by simp [opensOperand, hc]⟩

theorem Expr.opens {e : Expr} (hn : ∀ x ∈ e.names, IsName x) :
    ∃ c, e.text.toList.head? = some c ∧ opensOperand c = true := by
  induction e with
  | number n =>
    obtain ⟨c, cs, hcs⟩ := List.exists_cons_of_ne_nil (numberText_ne_nil n)
    have hdigit := numberText_isDigit n c (by simp [hcs])
    exact ⟨c, by rw [Expr.text, hcs]; rfl, by simp [opensOperand, hdigit]⟩
  | name x => exact (hn x (by simp [Expr.names])).opens
  | arith op l r ihl _ | compare op l r ihl _ =>
    obtain ⟨c, hcs, hc⟩ := ihl (List.forall_mem_append.1 hn).1
    exact ⟨c, by simp [Expr.text, hcs], hc⟩
  | conditional d t f ihd _ _ =>
    obtain ⟨c, hcs, hc⟩ := ihd (List.forall_mem_append.1 (List.forall_mem_append.1 hn).1).1
    exact ⟨c, by simp [Expr.text, hcs], hc⟩
  | grouped e ih =>
    unfold Expr.text
    split
    · exact ⟨'(', by simp, rfl⟩
    · exact ih hn

/-- The characters of a value, of what stands in front of it, and of the head of a function that no name has. -/
def signs : List Char := [' ', '+', '-', '*', '/', '=', '!', '<', '>', '?', ':', '(', ')', ',']

/-- Characters of a kind that no value has, nothing that stands in front of one, and no head of a function. -/
structure Foreign (p : Char → Bool) : Prop where
  name : ∀ c, isNameChar c = true → p c = false
  sign : ∀ c ∈ signs, p c = false

theorem foreign_isDelimiter : Foreign isDelimiter where
  name _ hc :=
    have hall : ∀ d, isDelimiter d = true → d ∈ [';', '\x7b'] := by simp [isDelimiter]
    kinds_apart hall rfl hc
  sign := by simp [signs, isDelimiter]

section

variable {p : Char → Bool} (hp : Foreign p)

include hp

theorem IsName.any_foreign {x : String} (h : IsName x) : x.toList.any p = false := by
  simpa using fun c hc => hp.name c (h.isNameChar c hc)

theorem Expr.any_foreign (e : Expr) (hn : ∀ x ∈ e.names, IsName x) : e.text.toList.any p = false := by
  induction e with
  | number n => simpa [Expr.text] using fun c hc => hp.name c (isNameChar_of_isDigit (numberText_isDigit n c hc))
  | name x => exact (hn x (by simp [Expr.names])).any_foreign hp
  | arith op l r ihl ihr =>
    obtain ⟨hl, hr⟩ := List.forall_mem_append.1 hn
    have hop : op.symbol.toList.any p = false := by cases op <;> simp (disch := decide) [ArithOp.symbol, hp.sign]
    simp (disch := decide) [Expr.text, hp.sign, ihl hl, ihr hr, hop]
  | compare op l r ihl ihr =>
    obtain ⟨hl, hr⟩ := List.forall_mem_append.1 hn
    have hop : op.symbol.toList.any p = false := by cases op <;> simp (disch := decide) [CompareOp.symbol, hp.sign]
    simp (disch := decide) [Expr.text, hp.sign, ihl hl, ihr hr, hop]
  | conditional c t f ihc iht ihf =>
    obtain ⟨hct, hf⟩ := List.forall_mem_append.1 hn
    obtain ⟨hc, ht⟩ := List.forall_mem_append.1 hct
    simp (disch := decide) [Expr.text, hp.sign, ihc hc, iht ht, ihf hf]
  | grouped e ih =>
    unfold Expr.text
    split
    · simp (disch := decide) [hp.sign, ih hn]
    · exact ih hn

end

/-! ## What stands in front of a value -/

inductive Lead
  | declare (name : String)
  | assign (name : String)
  | ret
  | bare
  deriving DecidableEq, Repr

namespace Lead

def text : Lead → List Char
  | declare x => ['i', 'n', 't', ' '] ++ x.toList ++ [' ', '=', ' ']
  | assign x => x.toList ++ [' ', '=', ' ']
  | ret => ['r', 'e', 't', 'u', 'r', 'n', ' ']
  | bare => []

def Named : Lead → Prop
  | declare x | assign x => IsName x
  | ret | bare => True

/-- The statement of a script. -/
def stmt (e : Expr) : Lead → Stmt
  | declare x | assign x => .assign x e
  | ret => .ret e
  | bare => .expr e

/-- The first word of a text, and what follows the space behind it. -/
def cutWord (cs : List Char) : List Char × List Char := (cs.takeWhile (· ≠ ' '), (cs.dropWhile (· ≠ ' ')).tail)

/-- Tells a lead by the second word of the text, and a declaration from `return` by the first. -/
def read (cs : List Char) : Lead × List Char :=
  let (first, behind) := cutWord cs
  let (second, value) := cutWord behind
  if second = [] ∨ second ∈ operators then (.bare, cs)
  else if second = ['='] then (.assign (String.ofList first), value)
  else if first = ['r', 'e', 't', 'u', 'r', 'n'] then (.ret, behind)
  else (.declare (String.ofList second), (cutWord value).2)

theorem cutWord_run {w rest : List Char} (hw : ' ' ∉ w) (hrest : ∀ c ∈ rest.head?, c = ' ') :
    cutWord (w ++ rest) = (w, rest.tail) := by
  have hrun : ∀ c ∈ w, decide (c ≠ ' ') = true := by
    intro c hc
    rw [decide_eq_true_eq]
    rintro rfl
    exact hw hc
  obtain ⟨htake, hdrop⟩ := takeWhile_run hrun (fun c hc => by simp [hrest c hc])
  rw [cutWord, htake, hdrop]

theorem cutWord_space {w : List Char} (hw : ' ' ∉ w) (rest : List Char) : cutWord (w ++ ' ' :: rest) = (w, rest) :=
  cutWord_run hw (by simp)

/-- What begins an operand is not without a word, and the word is no operator and no equals sign. -/
theorem cutWord_opens {cs : List Char} {c : Char} (h : cs.head? = some c) (hc : opensOperand c = true) :
    ¬((cutWord cs).1 = [] ∨ (cutWord cs).1 ∈ operators) ∧ (cutWord cs).1 ≠ ['='] := by
  obtain ⟨rest, rfl⟩ := List.head?_eq_some_iff.1 h
  have hspace : c ≠ ' ' := by
    rintro rfl
    cases hc
  have hfirst : (cutWord (c :: rest)).1.head? = some c := by simp [cutWord, hspace]
  refine ⟨fun hword => ?_, fun hequals => ?_⟩
  · rcases hword with hnil | hoperator
    · rw [hnil] at hfirst
      cases hfirst
    · rw [opensOperand_operators hoperator hfirst] at hc
      cases hc
  · rw [hequals] at hfirst
    cases hfirst
    cases hc

theorem cutWord_value {e : Expr} (hn : ∀ x ∈ e.names, IsName x) :
    (cutWord (cutWord e.text.toList).2).1 = [] ∨ (cutWord (cutWord e.text.toList).2).1 ∈ operators := by
  rcases e.operatorSecond hn with hone | ⟨w, op, r, hsplit, hw, hop⟩
  · have hfirst := @cutWord_run e.text.toList [] hone (by simp)
    rw [List.append_nil] at hfirst
    rw [hfirst]
    exact .inl rfl
  · rw [hsplit, cutWord_space hw, cutWord_space (operators_no_space op hop)]
    exact .inr hop

theorem read_text {lead : Lead} {e : Expr} (hlead : lead.Named) (hn : ∀ x ∈ e.names, IsName x) :
    read (lead.text ++ e.text.toList) = (lead, e.text.toList) := by
  obtain ⟨d, hd, hdOpens⟩ := Expr.opens hn
  have hequals : ' ' ∉ ['='] := by decide
  have hvalue := cutWord_space hequals e.text.toList
  cases lead with
  | declare x =>
    have hx : IsName x := hlead
    have hsplit : (declare x).text ++ e.text.toList =
        ['i', 'n', 't'] ++ ' ' :: (x.toList ++ ' ' :: (['='] ++ ' ' :: e.text.toList)) := by simp [text]
    have hfirst := cutWord_space (by decide : ' ' ∉ ['i', 'n', 't'])
      (x.toList ++ ' ' :: (['='] ++ ' ' :: e.text.toList))
    have hsecond := cutWord_space (hx.not_mem rfl) (['='] ++ ' ' :: e.text.toList)
    -- A name that is declared may be `int` itself, but it is no operator.
    obtain ⟨c, hc, hopens⟩ := hx.opens
    have hbehind : (x.toList ++ ' ' :: (['='] ++ ' ' :: e.text.toList)).head? = some c := by simp [hc]
    obtain ⟨hword, hassign⟩ := cutWord_opens hbehind hopens
    rw [hsecond] at hword hassign
    unfold read
    simp only [hsplit, hfirst, hsecond, if_neg hword, if_neg hassign, hvalue, String.ofList_toList]
    rfl
  | assign x =>
    have hx : IsName x := hlead
    have hsplit : (assign x).text ++ e.text.toList = x.toList ++ ' ' :: (['='] ++ ' ' :: e.text.toList) := by
      simp [text]
    have hfirst := cutWord_space (hx.not_mem rfl) (['='] ++ ' ' :: e.text.toList)
    unfold read
    simp only [hsplit, hfirst, hvalue, String.ofList_toList]
    rfl
  | ret =>
    have hsplit : ret.text ++ e.text.toList = ['r', 'e', 't', 'u', 'r', 'n'] ++ ' ' :: e.text.toList := by
      simp [text]
    have hfirst := cutWord_space (by decide : ' ' ∉ ['r', 'e', 't', 'u', 'r', 'n']) e.text.toList
    obtain ⟨hword, hassign⟩ := cutWord_opens hd hdOpens
    unfold read
    simp only [hsplit, hfirst, if_neg hword, if_neg hassign, if_true]
  | bare =>
    show read e.text.toList = _
    unfold read
    simp only [if_pos (cutWord_value hn)]

theorem stripped_stmt (lead : Lead) (e : Expr) : (lead.stmt e).stripped = lead.stmt e.stripped := by
  cases lead <;> rfl

theorem any_foreign {p : Char → Bool} (hp : Foreign p) {lead : Lead} {e : Expr} (hlead : lead.Named)
    (hn : ∀ x ∈ e.names, IsName x) : (lead.text ++ e.text.toList).any p = false := by
  have hvalue := e.any_foreign hp hn
  cases lead with
  | declare x | assign x =>
    have hx : IsName x := hlead
    simp (disch := decide) [text, hp.name, hp.sign, hx.any_foreign hp, hvalue]
  | ret => simp (disch := decide) [text, hp.name, hp.sign, hvalue]
  | bare => exact hvalue

end Lead

/-! ## The head of a function -/

/-- What is written in front of the body of a function. -/
def headText (name : String) (params : List String) : List Char :=
  ['i', 'n', 't', ' '] ++ name.toList ++ '(' :: ((", ".intercalate (params.map ("int " ++ ·))).toList ++ [')', ' '])

/-- The parameters behind the first. -/
def paramsBehind (ps : List String) : List Char := ps.flatMap fun p => [',', ' ', 'i', 'n', 't', ' '] ++ p.toList

theorem paramsText_cons (p : String) (ps : List String) :
    (", ".intercalate ((p :: ps).map ("int " ++ ·))).toList = ['i', 'n', 't', ' '] ++ (p.toList ++ paramsBehind ps) := by
  induction ps generalizing p with
  | nil => simp [paramsBehind]
  | cons q qs ih =>
    rw [List.map_cons, List.map_cons, String.intercalate_cons_cons, ← List.map_cons, String.toList_append, ih]
    simp [paramsBehind]

theorem paramsBehind_head (ps : List String) : ∀ c ∈ (paramsBehind ps).head?, isNameChar c = false := by
  intro c hc
  rcases ps with _ | ⟨p, ps⟩
  · cases hc
  · cases hc
    rfl

theorem params_unique {p q : String} {ps qs : List String} (hps : ∀ x ∈ p :: ps, IsName x)
    (hqs : ∀ x ∈ q :: qs, IsName x) (h : p.toList ++ paramsBehind ps = q.toList ++ paramsBehind qs) :
    p :: ps = q :: qs := by
  induction ps generalizing p q qs with
  | nil =>
    obtain ⟨rfl, htail⟩ := (hps p (by simp)).unique (hqs q (by simp)) (paramsBehind_head _) (paramsBehind_head _) h
    rcases qs with _ | ⟨q', qs⟩
    · rfl
    · cases htail
  | cons p' ps ih =>
    obtain ⟨rfl, htail⟩ := (hps p (by simp)).unique (hqs q (by simp)) (paramsBehind_head _) (paramsBehind_head _) h
    rcases qs with _ | ⟨q', qs⟩
    · cases htail
    · rw [ih (List.forall_mem_cons.1 hps).2 (List.forall_mem_cons.1 hqs).2 (by simpa [paramsBehind] using htail)]

theorem headText_unique {f g : String} {ps qs : List String} (hf : IsName f) (hg : IsName g)
    (hps : ∀ x ∈ ps, IsName x) (hqs : ∀ x ∈ qs, IsName x) (h : headText f ps = headText g qs) :
    f = g ∧ ps = qs := by
  have hopen : ∀ r : List Char, ∀ c ∈ ('(' :: r).head?, isNameChar c = false := by
    rintro r _ ⟨⟩
    rfl
  unfold headText at h
  rw [List.append_assoc, List.append_assoc, List.append_cancel_left_eq] at h
  obtain ⟨rfl, hbehind⟩ := hf.unique hg (hopen _) (hopen _) h
  refine ⟨rfl, ?_⟩
  have hparams := List.append_cancel_right (List.cons.inj hbehind).2
  rcases ps with _ | ⟨p, ps⟩ <;> rcases qs with _ | ⟨q, qs⟩
  · rfl
  · rw [paramsText_cons] at hparams
    simp at hparams
  · rw [paramsText_cons] at hparams
    simp at hparams
  · rw [paramsText_cons, paramsText_cons, List.append_cancel_left_eq] at hparams
    exact params_unique hps hqs hparams

theorem paramsBehind_any_foreign {p : Char → Bool} (hp : Foreign p) {ps : List String} (hps : ∀ x ∈ ps, IsName x) :
    (paramsBehind ps).any p = false := by
  induction ps with
  | nil => rfl
  | cons x ps ih =>
    obtain ⟨hx, hps⟩ := List.forall_mem_cons.1 hps
    have hbehind : paramsBehind (x :: ps) = [',', ' ', 'i', 'n', 't', ' '] ++ x.toList ++ paramsBehind ps := rfl
    simp (disch := decide) [hbehind, hp.name, hp.sign, hx.any_foreign hp, ih hps]

theorem headText_any_foreign {p : Char → Bool} (hp : Foreign p) {f : String} {ps : List String} (hf : IsName f)
    (hps : ∀ x ∈ ps, IsName x) : (headText f ps).any p = false := by
  rcases ps with _ | ⟨x, ps⟩
  · simp (disch := decide) [headText, hp.name, hp.sign, hf.any_foreign hp]
  · obtain ⟨hx, hps⟩ := List.forall_mem_cons.1 hps
    rw [headText, paramsText_cons]
    simp (disch := decide) [hp.name, hp.sign, hf.any_foreign hp, hx.any_foreign hp, paramsBehind_any_foreign hp hps]

/-! ## Statements -/

/-- What can be written for a statement, whatever has been declared in front of it. -/
inductive Stmt.Writes : Stmt → List Char → Prop
  | value {lead : Lead} {e : Expr} : lead.Named → e.Readable →
      Writes (lead.stmt e) (lead.text ++ e.text.toList ++ ';' :: [])
  | function {name : String} {params : List String} {s : Stmt} {text : List Char} : IsName name →
      (∀ x ∈ params, IsName x) → Writes s text →
      Writes (.function name params [s])
        (headText name params ++ '\x7b' :: ' ' :: (text ++ [' ', '\x7d', ';']))

/-- Where a statement is written, no other is, but for parentheses, and it ends at the same place. -/
theorem Stmt.Writes.unique {s s' : Stmt} {text text' rest rest' : List Char} (h : Writes s text)
    (h' : Writes s' text') (htext : text ++ rest = text' ++ rest') : s.stripped = s'.stripped ∧ rest = rest' := by
  induction h generalizing s' text' rest rest' with
  | @value lead e hlead he =>
    have hfront := Lead.any_foreign foreign_isDelimiter hlead he.names
    cases h' with
    | value hlead' he' =>
      obtain ⟨hsame, -, hrest⟩ := cut_unique hfront (Lead.any_foreign foreign_isDelimiter hlead' he'.names) rfl rfl htext
      have hread := Lead.read_text hlead he.names
      rw [hsame, Lead.read_text hlead' he'.names, Prod.mk.injEq] at hread
      rcases hread with ⟨rfl, hvalue⟩
      rw [Lead.stripped_stmt, Lead.stripped_stmt, he.stripped_eq he' (String.toList_inj.1 hvalue.symm)]
      exact ⟨rfl, hrest⟩
    | function hname hparams _ =>
      -- One text has a semicolon first and the other a brace.
      obtain ⟨-, hmark, -⟩ := cut_unique hfront (headText_any_foreign foreign_isDelimiter hname hparams) rfl rfl htext
      cases hmark
  | @function name params s text hname hparams _ ih =>
    have hhead := headText_any_foreign foreign_isDelimiter hname hparams
    cases h' with
    | value hlead' he' =>
      obtain ⟨-, hmark, -⟩ := cut_unique hhead (Lead.any_foreign foreign_isDelimiter hlead' he'.names) rfl rfl htext
      cases hmark
    | @function _ _ s' text' hname' hparams' hbody' =>
      obtain ⟨hsame, -, hbehind⟩ := cut_unique hhead (headText_any_foreign foreign_isDelimiter hname' hparams') rfl rfl htext
      obtain ⟨rfl, rfl⟩ := headText_unique hname hname' hparams hparams' hsame
      have hbody : text ++ ([' ', '\x7d', ';'] ++ rest) = text' ++ ([' ', '\x7d', ';'] ++ rest') := by
        simpa using hbehind
      obtain ⟨hs, hrest⟩ := ih hbody' hbody
      rw [Stmt.stripped, Stmt.stripped, Stmt.allStripped, Stmt.allStripped, hs]
      exact ⟨rfl, List.append_cancel_left hrest⟩

/-! ## What is written for a program -/

/-- A value of a script can be read. -/
theorem Expr.Derives.readable {tier : Tier} {ts : List Token} {e : Expr} (h : Expr.Derives (.whole tier) ts e)
    (hn : ∀ x, .name x ∈ ts → IsName x) : e.Readable :=
  ⟨h.shaped, fun x hx => hn x (h.names x hx)⟩

theorem name_mem_nameTokens {names : List String} {x : String} (h : x ∈ names) : .name x ∈ nameTokens names := by
  induction names with
  | nil => cases h
  | cons y names ih =>
    rcases names with _ | ⟨z, names⟩
    · simpa [nameTokens] using h
    · rw [nameTokens_cons_cons, List.mem_cons, List.mem_cons]
      rcases List.mem_cons.1 h with rfl | h
      · exact .inl rfl
      · exact .inr (.inr (ih h))

theorem Stmt.Derives.writes {ts : List Token} {s : Stmt} (h : Stmt.Derives ts s) (hn : ∀ x, .name x ∈ ts → IsName x)
    (known : Declared) : Writes s (CStmt.ofStmt known s).1.text.toList := by
  induction h generalizing known with
  | @assign x ts e he =>
    have hx : IsName x := hn x (by simp)
    have hvalue := he.readable (fun y hy => hn y (by simp [hy]))
    rw [CStmt.ofStmt]
    by_cases hknown : known.has x = true
    · rw [if_pos hknown]
      simpa [CStmt.text, Lead.text, Lead.stmt] using @Stmt.Writes.value (.assign x) e hx hvalue
    · rw [if_neg hknown]
      simpa [CStmt.text, Lead.text, Lead.stmt] using @Stmt.Writes.value (.declare x) e hx hvalue
  | @ret ts e he =>
    have hvalue := he.readable (fun y hy => hn y (by simp [hy]))
    simpa [CStmt.ofStmt, CStmt.text, Lead.text, Lead.stmt] using @Stmt.Writes.value .ret e trivial hvalue
  | @expr ts e he =>
    have hvalue := he.readable hn
    simpa [CStmt.ofStmt, CStmt.text, Lead.text, Lead.stmt] using @Stmt.Writes.value .bare e trivial hvalue
  | @function name params breaks ts s _ _ ih =>
    have hname : IsName name := hn name (by simp [signatureTokens])
    have hparams : ∀ x ∈ params, IsName x := fun x hx => hn x (by simp [signatureTokens, name_mem_nameTokens hx])
    have hbody := ih (fun y hy => hn y (by simp [hy])) (Declared.ofParameters params)
    simpa [CStmt.ofStmt, CStmt.ofStmts, CStmt.text, CStmt.texts, headText] using
      Stmt.Writes.function hname hparams hbody

/-- What can be written for a program: the statements, with a space between them. -/
inductive Program.Writes : Program → List Char → Prop
  | one {s : Stmt} {text : List Char} : Stmt.Writes s text → Writes [s] text
  | more {s : Stmt} {p : Program} {text behind : List Char} : Stmt.Writes s text → Writes p behind →
      Writes (s :: p) (text ++ ' ' :: behind)

theorem Program.Writes.unique {p q : Program} {text text' : List Char} (hp : Writes p text) (hq : Writes q text')
    (htext : text = text') : p.stripped = q.stripped := by
  induction hp generalizing q text' with
  | one hs =>
    cases hq with
    | one hs' =>
      obtain ⟨hsame, -⟩ := hs.unique hs' (congrArg (· ++ []) htext)
      simp only [Program.stripped_cons, Program.stripped_nil, hsame]
    | more hs' _ =>
      obtain ⟨-, hrest⟩ := hs.unique hs' ((List.append_nil _).trans htext)
      cases hrest
  | more hs _ ih =>
    cases hq with
    | one hs' =>
      obtain ⟨-, hrest⟩ := hs.unique hs' (htext.trans (List.append_nil _).symm)
      cases hrest
    | more hs' hq =>
      obtain ⟨hsame, hrest⟩ := hs.unique hs' htext
      simp only [Program.stripped_cons, hsame, ih hq (List.cons.inj hrest).2]

theorem Program.writes_of_stmts {p : Program} (hne : p ≠ [])
    (h : ∀ s ∈ p, ∀ known, Stmt.Writes s (CStmt.ofStmt known s).1.text.toList) (known : Declared) :
    Writes p (Code.text (CStmt.ofStmts known p).1).toList := by
  induction p generalizing known with
  | nil => exact absurd rfl hne
  | cons s p ih =>
    obtain ⟨hs, hp⟩ := List.forall_mem_cons.1 h
    rcases p with _ | ⟨s', p⟩
    · simpa [CStmt.ofStmts, CStmt.texts, Code.text] using Writes.one (hs known)
    · have hmore := Writes.more (hs known) (ih (List.cons_ne_nil s' p) hp (CStmt.ofStmt known s).2)
      simpa [CStmt.ofStmts, CStmt.texts, Code.text, String.intercalate_cons_cons] using hmore

theorem Program.Derives.writes {ts : List Token} {p : Program} (h : Program.Derives ts p)
    (hn : ∀ x, .name x ∈ ts → IsName x) : Writes p (Code.ofProgram p).text.toList := by
  refine Program.writes_of_stmts h.ne_nil (fun s hs known => ?_) Declared.empty
  obtain ⟨us, hsub, hd⟩ := h.stmts s hs
  exact hd.writes (fun x hx => hn x (hsub hx)) known

/-! ## Two scripts with the same code -/

theorem ReadsAs.writes {script : String} {p : Program} (h : ReadsAs script p) :
    Program.Writes p (Code.ofProgram p).text.toList := by
  rcases h with ⟨lexed, hlex, hp⟩
  exact (Program.derives_of_ofTokens hp).writes (Lexed.ofString_eq_ok_iff.1 hlex).isName

/-- Two scripts that are accepted have the same code if and only if they are the same program, but for
    parentheses around names, numbers and parentheses. -/
theorem same_code_iff_stripped {a b code code' : String} (ha : (compile a).result = .ok code)
    (hb : (compile b).result = .ok code') :
    ∃ p q, ReadsAs a p ∧ ReadsAs b q ∧ (code = code' ↔ p.stripped = q.stripped) := by
  obtain ⟨p, hp, rfl⟩ := compile_eq_ok_iff_readsAs.1 ha
  obtain ⟨q, hq, rfl⟩ := compile_eq_ok_iff_readsAs.1 hb
  refine ⟨p, q, hp, hq, fun hsame => hp.writes.unique hq.writes (congrArg String.toList hsame), fun hsame => ?_⟩
  rw [← p.text_stripped, ← q.text_stripped, hsame]

/-- A function may be called `int`, and what is declared may be too. -/
theorem same_code_for_other_parentheses :
    ∃ p q, ReadsAs "def int(x): ((x)) * (1 + 2)\nint = (3)" p ∧ ReadsAs "def int(x):\n  x * ((1 + 2)); int = 3" q ∧
      p.stripped = q.stripped := by
  have ha : (compile "def int(x): ((x)) * (1 + 2)\nint = (3)").result =
      .ok "int int(int x) \x7b x * (1 + 2); \x7d; int int = 3;" :=
    Except.eq_ok_of_toOption (by decide +kernel)
  have hb : (compile "def int(x):\n  x * ((1 + 2)); int = 3").result =
      .ok "int int(int x) \x7b x * (1 + 2); \x7d; int int = 3;" :=
    Except.eq_ok_of_toOption (by decide +kernel)
  obtain ⟨p, q, hp, hq, hiff⟩ := same_code_iff_stripped ha hb
  exact ⟨p, q, hp, hq, hiff.1 rfl⟩

end ScriptToC
