/-
  ScriptToC.Proofs.StuckPrograms — statements and programs are stuck in front of a wrong token.

  As for expressions, reading without a layout hangs on the tokens that are taken and on the next one: a
  statement is taken or reading is stuck (`Stmt.outcome`), and tokens are no program exactly if reading is
  stuck behind some of them (`Program.ofTokens_error_iff_stuck`).
-/

import ScriptToC.Proofs.ProgramReading

namespace ScriptToC

open Cursor

/-- Reading at `c` has passed some tokens, and the next one is wrong as `stuck` tells. -/
def Failure.At (c : Cursor) (stuck : List Token → Option Token → Expectation → Prop) (f : Failure) : Prop :=
  ∃ ts d x, c.Passes ts d ∧ f = d.fail x ∧ stuck ts d.rest.head? x

theorem Failure.At.behind {c d : Cursor} {ts : List Token} {f : Failure}
    {stuck stuck' : List Token → Option Token → Expectation → Prop} (hp : c.Passes ts d) (h : f.At d stuck)
    (hstuck : ∀ us next x, stuck us next x → stuck' (ts ++ us) next x) : f.At c stuck' := by
  rcases h with ⟨us, e, x, hp', rfl, hs⟩
  exact ⟨ts ++ us, e, x, hp.trans hp', rfl, hstuck us _ x hs⟩

/-! ## Signatures -/

/-- What follows `(` is stuck in a list of names, which must have one. -/
inductive NamesStuck : List Token → Option Token → Expectation → Prop
  | name {next : Option Token} : (∀ y, next ≠ some (.name y)) → NamesStuck [] next .parameterName
  | comma {y : String} {ts : List Token} {next : Option Token} {x : Expectation} : NamesStuck ts next x →
      NamesStuck (.name y :: .mark .comma :: ts) next x
  | close {y : String} {next : Option Token} : next ≠ some (.mark .comma) → next ≠ some (.mark .closeParen) →
      NamesStuck [.name y] next .parameterListEnd

/-- What follows `def` is stuck in front of the body. -/
inductive HeadStuck : List Token → Option Token → Expectation → Prop
  | name {next : Option Token} : (∀ y, next ≠ some (.name y)) → HeadStuck [] next .functionName
  | openParen {f : String} {next : Option Token} : next ≠ some (.mark .openParen) →
      HeadStuck [.name f] next .parameterList
  | names {f : String} {ts : List Token} {next : Option Token} {x : Expectation} :
      ts.head?.or next ≠ some (.mark .closeParen) → NamesStuck ts next x →
      HeadStuck (.name f :: .mark .openParen :: ts) next x
  | colon {f : String} {params : List String} {next : Option Token} : next ≠ some (.mark .colon) →
      HeadStuck (.name f :: .mark .openParen :: (nameTokens params ++ [.mark .closeParen])) next .bodyColon

theorem Cursor.expectName_eq_fail {c : Cursor} (h : ∀ y, c.rest.head? ≠ some (.name y)) (x : Expectation) :
    c.expectName x = .error (c.fail x) := by
  unfold expectName
  cases hname : c.name? with
  | none => rfl
  | some r => exact absurd (passes_of_name? hname).head? (h r.value)

theorem Cursor.expectName_error {c : Cursor} {x : Expectation} {f : Failure} (h : c.expectName x = .error f) :
    f = c.fail x ∧ ∀ y, c.rest.head? ≠ some (.name y) := by
  have hnot : ∀ y, c.rest.head? ≠ some (.name y) := by
    intro y hy
    obtain ⟨d, _, hnext⟩ := next?_of_head? hy
    obtain ⟨_, hname⟩ := (passes_of_next? hnext).expectName x
    rw [hname] at h
    cases h
  rw [expectName_eq_fail hnot] at h
  exact ⟨(Except.error.inj h).symm, hnot⟩

theorem Cursor.expect_error {c : Cursor} {t : Token} {x : Expectation} {f : Failure} (h : c.expect t x = .error f) :
    f = c.fail x ∧ c.rest.head? ≠ some t := by
  rcases expect_cases c t x with ⟨d, lt, hok, -⟩ | ⟨hfail, hnot⟩
  · rw [hok] at h
    cases h
  · rw [hfail] at h
    exact ⟨(Except.error.inj h).symm, hnot⟩

theorem NamesStuck.fails {ts : List Token} {next : Option Token} {x : Expectation} (h : NamesStuck ts next x) :
    ∀ c d : Cursor, c.Passes ts d → d.rest.head? = next → readNames c = .error (d.fail x) := by
  induction h with
  | name hnext =>
    intro c d hp hd
    rw [passes_nil.1 hp] at hd ⊢
    rw [readNames]
    simp [expectName_eq_fail (hd ▸ hnext)]
  | comma _ ih =>
    intro c d hp hd
    obtain ⟨c₁, hname, hp⟩ := hp.uncons
    obtain ⟨c₂, hcomma, hp⟩ := hp.uncons
    obtain ⟨_, hname⟩ := hname.expectName .parameterName
    obtain ⟨_, hcomma⟩ := hcomma.take?
    rw [readNames]
    simp [hname, hcomma, ih c₂ d hp hd]
  | close hcomma hclose =>
    intro c d hp hd
    obtain ⟨_, hname⟩ := hp.expectName .parameterName
    rw [readNames]
    simp [hname, take?_eq_none (hd ▸ hcomma), expect_eq_fail (hd ▸ hclose)]

theorem NamesStuck.viable {ts : List Token} {next : Option Token} {x : Expectation} (h : NamesStuck ts next x) :
    ∃ us y names, ts ++ us = nameTokens (y :: names) ++ [.mark .closeParen] := by
  induction h with
  | name _ => exact ⟨[.name "x", .mark .closeParen], "x", [], rfl⟩
  | @comma y _ _ _ _ ih =>
    obtain ⟨us, z, names, heq⟩ := ih
    refine ⟨us, y, z :: names, ?_⟩
    rw [nameTokens_cons_cons, List.cons_append, List.cons_append, heq]
    rfl
  | @close y _ _ _ => exact ⟨[.mark .closeParen], y, [], rfl⟩

theorem readNames_error {c : Cursor} {f : Failure} (h : readNames c = .error f) : f.At c NamesStuck := by
  induction c using readNames.induct with
  | case1 c ih =>
    rw [readNames] at h
    rcases Except.bind_eq_error.1 h with h | ⟨⟨y, c₁, h₁⟩, hname, h⟩
    · obtain ⟨rfl, hnot⟩ := expectName_error h
      exact ⟨[], c, _, .refl c, rfl, .name hnot⟩
    · have hname := passes_of_expectName hname
      dsimp only at hname h
      split at h
      · rename_i v c₂ h₂ hcomma
        rcases Except.bind_eq_error.1 h with h | ⟨r, -, h⟩
        · exact (ih c₁ h₁ c₂ h₂ h).behind (hname.trans (passes_of_take? hcomma)) (fun _ _ _ hs => .comma hs)
        · cases h
      · rename_i hcomma
        rcases Except.bind_eq_error.1 h with h | ⟨r, -, h⟩
        · obtain ⟨rfl, hnot⟩ := expect_error h
          exact ⟨_, c₁, _, hname, rfl, .close (take?_eq_none_iff.1 hcomma) hnot⟩
        · cases h

theorem HeadStuck.fails {ts : List Token} {next : Option Token} {x : Expectation} (h : HeadStuck ts next x)
    {c d : Cursor} (hp : c.Passes ts d) (hd : d.rest.head? = next) : readHead c = .error (d.fail x) := by
  unfold readHead
  cases h with
  | name hnext =>
    rw [passes_nil.1 hp] at hd ⊢
    simp [expectName_eq_fail (hd ▸ hnext)]
  | openParen hnext =>
    obtain ⟨_, hname⟩ := hp.expectName .functionName
    simp [hname, expect_eq_fail (hd ▸ hnext)]
  | names hnext hs =>
    obtain ⟨c₁, hname, hp⟩ := hp.uncons
    obtain ⟨c₂, hopen, hp⟩ := hp.uncons
    obtain ⟨_, hname⟩ := hname.expectName .functionName
    obtain ⟨_, hopen⟩ := hopen.expect .parameterList
    have hclose : c₂.take? (.mark .closeParen) = none := take?_eq_none (by rw [hp.head?_or, hd]; exact hnext)
    simp [hname, hopen, readParameters, hclose, hs.fails c₂ d hp hd]
  | colon hnext =>
    obtain ⟨c₁, hname, hp⟩ := hp.uncons
    obtain ⟨c₂, hopen, hp⟩ := hp.uncons
    obtain ⟨_, hname⟩ := hname.expectName .functionName
    obtain ⟨_, hopen⟩ := hopen.expect .parameterList
    obtain ⟨_, hparams⟩ := hp.readParameters
    simp [hname, hopen, hparams, expect_eq_fail (hd ▸ hnext)]

theorem HeadStuck.viable {ts : List Token} {next : Option Token} {x : Expectation} (h : HeadStuck ts next x) :
    ∃ us f params, ts ++ us = signatureTokens f params := by
  cases h with
  | name _ => exact ⟨signatureTokens "f" [], "f", [], rfl⟩
  | @openParen f _ _ => exact ⟨[.mark .openParen, .mark .closeParen, .mark .colon], f, [], rfl⟩
  | @names f ts _ _ _ hs =>
    obtain ⟨us, y, names, heq⟩ := hs.viable
    refine ⟨us ++ [.mark .colon], f, y :: names, ?_⟩
    have hall : ts ++ (us ++ [.mark .colon]) = nameTokens (y :: names) ++ [.mark .closeParen, .mark .colon] := by
      rw [← List.append_assoc, heq, List.append_assoc]
      rfl
    rw [signatureTokens, ← hall]
    rfl
  | @colon f params _ _ => exact ⟨[.mark .colon], f, params, by simp [signatureTokens]⟩

theorem readHead_error {c : Cursor} {f : Failure} (h : readHead c = .error f) : f.At c HeadStuck := by
  unfold readHead at h
  rcases Except.bind_eq_error.1 h with h | ⟨⟨name, c₁, h₁⟩, hname, h⟩
  · obtain ⟨rfl, hnot⟩ := expectName_error h
    exact ⟨[], c, _, .refl c, rfl, .name hnot⟩
  have hname := passes_of_expectName hname
  rcases Except.bind_eq_error.1 h with h | ⟨⟨_, c₂, h₂⟩, hopen, h⟩
  · obtain ⟨rfl, hnot⟩ := expect_error h
    exact ⟨_, c₁, _, hname, rfl, .openParen hnot⟩
  have hopen := hname.trans (passes_of_expect hopen)
  rcases Except.bind_eq_error.1 h with h | ⟨⟨params, c₃, h₃⟩, hparams, h⟩
  · unfold readParameters at h
    split at h
    · cases h
    · rename_i hclose
      obtain ⟨ts, d, x, hp, rfl, hs⟩ := readNames_error h
      have hnext := take?_eq_none_iff.1 hclose
      rw [hp.head?_or] at hnext
      exact ⟨_, d, x, hopen.trans hp, rfl, .names hnext hs⟩
  have hparams := hopen.trans (passes_of_readParameters hparams)
  rcases Except.bind_eq_error.1 h with h | ⟨r, -, h⟩
  · obtain ⟨rfl, hnot⟩ := expect_error h
    exact ⟨_, c₃, _, hparams, rfl, .colon hnot⟩
  · cases h

/-! ## Statements -/

/-- Where these tokens and the next one lie ahead, an expression is read: no keyword opens a statement, and
    no name with an equals sign does. -/
def StartsExpr (ts : List Token) (next : Option Token) : Prop :=
  ∀ c d : Cursor, c.Passes ts d → d.rest.head? = next →
    c.target? = none ∧ c.rest.head? ≠ some (.word .defWord) ∧ c.rest.head? ≠ some (.word .returnWord)

theorem Cursor.target?_ne_none {c : Cursor} {y : String} {us : List Token}
    (h : c.rest = .name y :: .mark .assign :: us) : c.target? ≠ none := by
  intro hnone
  have hp : c.Passes [.name y, .mark .assign] ⟨us, c.index + 2, c.line⟩ := ⟨h, rfl, rfl⟩
  obtain ⟨_, htarget⟩ := hp.target?
  rw [htarget] at hnone
  cases hnone

/-- It is enough that one cursor tells so, if nothing of an expression is missing. -/
theorem startsExpr_of {c d : Cursor} {ts : List Token} (hp : c.Passes ts d) (htarget : c.target? = none)
    (hdef : c.rest.head? ≠ some (.word .defWord)) (hret : c.rest.head? ≠ some (.word .returnWord))
    (hnext : ts = [] → ∀ t ∈ d.rest.head?, t.beginsExpr = false) : StartsExpr ts d.rest.head? := by
  intro c' d' hp' hd'
  rw [hp'.head?_or, hd', ← hp.head?_or]
  refine ⟨?_, hdef, hret⟩
  cases htarget' : c'.target? with
  | none => rfl
  | some r =>
    have hrest := (passes_of_target? htarget').rest
    rw [hp'.rest] at hrest
    rcases ts with _ | ⟨t, _ | ⟨u, ts⟩⟩
    · have hnot := hnext rfl (.name r.value) (by rw [← hd']; simp [show d'.rest = _ from hrest])
      simp [Token.beginsExpr] at hnot
    · obtain ⟨rfl, htail⟩ := List.cons.inj hrest
      have hassign : d.rest.head? = some (.mark .assign) := by
        rw [← hd', show d'.rest = _ from htail]
        rfl
      obtain ⟨us, hus⟩ := List.head?_eq_some_iff.1 hassign
      exact absurd htarget (target?_ne_none (by rw [hp.rest, hus]; rfl))
    · obtain ⟨rfl, htail⟩ := List.cons.inj hrest
      obtain ⟨rfl, -⟩ := List.cons.inj htail
      exact absurd htarget (target?_ne_none hp.rest)

theorem Stmt.read_of_startsExpr {ts : List Token} {next : Option Token} (h : StartsExpr ts next) {c d : Cursor}
    (hp : c.Passes ts d) (hd : d.rest.head? = next) :
    Stmt.read none c = (do
      let ⟨value, c₁, h₁⟩ ← Expr.read .conditional c
      return ⟨.expr value, c₁, h₁⟩) := by
  obtain ⟨htarget, hdef, hret⟩ := h c d hp hd
  exact Stmt.read_of_no_form htarget hdef hret

structure Stmt.Takes (ts : List Token) (next : Option Token) (s : Stmt) : Prop where
  derives : Stmt.Derives ts s
  reads : ∀ c d : Cursor, c.Passes ts d → d.rest.head? = next → (Stmt.read none c).Gives s d

namespace Stmt.Takes

variable {ts : List Token} {next : Option Token} {e : Expr}

theorem expr (he : (Expr.Phrase.whole .conditional).Takes ts next e) (hstarts : StartsExpr ts next) :
    Stmt.Takes ts next (.expr e) := by
  refine ⟨.expr he.derives, fun c d hp hd => ?_⟩
  obtain ⟨lt, hread⟩ := he.reads c d hp hd
  exact ⟨lt, by rw [Stmt.read_of_startsExpr hstarts hp hd, hread]; rfl⟩

theorem ret (he : (Expr.Phrase.whole .conditional).Takes ts next e) :
    Stmt.Takes (.word .returnWord :: ts) next (.ret e) := by
  refine ⟨.ret he.derives, fun c d hp hd => ?_⟩
  obtain ⟨c₁, hret, hp⟩ := hp.uncons
  exact Stmt.read_behind_return hret (he.reads c₁ d hp hd)

theorem assign {y : String} (he : (Expr.Phrase.whole .conditional).Takes ts next e) :
    Stmt.Takes (.name y :: .mark .assign :: ts) next (.assign y e) := by
  refine ⟨.assign he.derives, fun c d hp hd => ?_⟩
  have hsplit : c.Passes ([.name y, .mark .assign] ++ ts) d := hp
  obtain ⟨c₁, htarget, hp⟩ := hsplit.split
  exact Stmt.read_behind_target htarget (he.reads c₁ d hp hd)

theorem function {f : String} {params : List String} {breaks : List Token} {s : Stmt}
    (hbreaks : ∀ t ∈ breaks, t = .newline) (hs : Stmt.Takes ts next s) :
    Stmt.Takes (.word .defWord :: (signatureTokens f params ++ (breaks ++ ts))) next (.function f params [s]) := by
  refine ⟨.function hbreaks hs.derives, fun c d hp hd => ?_⟩
  rw [← List.cons_append] at hp
  obtain ⟨colon, hsig, hp⟩ := hp.split
  obtain ⟨start, hskip, hp⟩ := hp.split
  have hstart := hskip.skipBreaks hbreaks (hs.derives.not_break hp)
  rw [Stmt.read_function_iff hsig, hstart]
  exact ⟨s, rfl, hs.reads start d hp hd, laidOut_none ..⟩

end Stmt.Takes

/-- A statement is stuck. Only what starts no other form is stuck as an expression, and a body is stuck
    behind all the line breaks in front of it. -/
inductive Stmt.Stuck : List Token → Option Token → Expectation → Prop
  | expr {ts : List Token} {next : Option Token} {x : Expectation} : Expr.Stuck (.whole .conditional) ts next x →
      StartsExpr ts next → Stuck ts next x
  | ret {ts : List Token} {next : Option Token} {x : Expectation} : Expr.Stuck (.whole .conditional) ts next x →
      Stuck (.word .returnWord :: ts) next x
  | assign {y : String} {ts : List Token} {next : Option Token} {x : Expectation} :
      Expr.Stuck (.whole .conditional) ts next x → Stuck (.name y :: .mark .assign :: ts) next x
  | head {ts : List Token} {next : Option Token} {x : Expectation} : HeadStuck ts next x →
      Stuck (.word .defWord :: ts) next x
  | body {f : String} {params : List String} {breaks ts : List Token} {next : Option Token} {x : Expectation} :
      (∀ t ∈ breaks, t = .newline) → ts.head?.or next ≠ some .newline → Stuck ts next x →
      Stuck (.word .defWord :: (signatureTokens f params ++ (breaks ++ ts))) next x

/-- The line breaks in front of a cursor are skipped, and no more. -/
theorem Cursor.Passes.skipBreaks_eq {c d e : Cursor} {breaks ts : List Token} (hskip : c.Passes breaks d)
    (hp : d.Passes ts e) (hbreaks : ∀ t ∈ breaks, t = .newline)
    (hnext : ts.head?.or e.rest.head? ≠ some .newline) : c.skipBreaks = d := by
  refine hskip.skipBreaks hbreaks (fun t ht hnewline => hnext ?_)
  rw [← hp.head?_or, show d.rest.head? = some t from ht, hnewline]

theorem Stmt.Stuck.fails {ts : List Token} {next : Option Token} {x : Expectation} (h : Stmt.Stuck ts next x) :
    ∀ c d : Cursor, c.Passes ts d → d.rest.head? = next → Stmt.read none c = .error (d.fail x) := by
  induction h with
  | expr he hstarts =>
    intro c d hp hd
    have hread : Expr.read .conditional c = _ := he.fails c d hp hd
    rw [Stmt.read_of_startsExpr hstarts hp hd, hread]
    rfl
  | ret he =>
    intro c d hp hd
    obtain ⟨c₁, hret, hp⟩ := hp.uncons
    obtain ⟨_, hret⟩ := hret.next?
    have hread : Expr.read .conditional c₁ = _ := he.fails c₁ d hp hd
    rw [Stmt.read]
    simp [hret, hread]
  | @assign y ts _ _ he =>
    intro c d hp hd
    have hsplit : c.Passes ([.name y, .mark .assign] ++ ts) d := hp
    obtain ⟨c₁, htarget, hp⟩ := hsplit.split
    obtain ⟨_, htarget⟩ := htarget.target?
    have hread : Expr.read .conditional c₁ = _ := he.fails c₁ d hp hd
    rw [Stmt.read_of_target? htarget]
    simp [hread]
  | head hs =>
    intro c d hp hd
    obtain ⟨c₁, hdef, hp⟩ := hp.uncons
    obtain ⟨_, hdef⟩ := hdef.next?
    rw [Stmt.read]
    simp [hdef, hs.fails hp hd]
  | body hbreaks hnext _ ih =>
    intro c d hp hd
    obtain ⟨c₁, hdef, hp⟩ := hp.uncons
    obtain ⟨colon, hsig, hp⟩ := hp.split
    obtain ⟨start, hskip, hp⟩ := hp.split
    obtain ⟨_, hdef⟩ := hdef.next?
    obtain ⟨_, hhead⟩ := hsig.readHead
    have hbody := ih start d hp hd
    rw [← hskip.skipBreaks_eq hp hbreaks (by rw [hd]; exact hnext)] at hbody
    rw [Stmt.read]
    simp [hdef, hhead, bodyMayStart, require, hbody]

inductive Stmt.Outcome (c : Cursor) : Reading Stmt c → Prop
  | taken {ts : List Token} {s : Stmt} {d : Cursor} (lt : d.rest.length < c.rest.length) : c.Passes ts d →
      Stmt.Takes ts d.rest.head? s → Outcome c (.ok ⟨s, d, lt⟩)
  | stuck {ts : List Token} {d : Cursor} {x : Expectation} : c.Passes ts d → Stmt.Stuck ts d.rest.head? x →
      Outcome c (.error (d.fail x))

/-- An expression that is stuck at once is so in front of a token that begins none. -/
theorem Expr.Stuck.begins {p : Expr.Phrase} {ts : List Token} {next : Option Token} {x : Expectation}
    (h : Expr.Stuck p ts next x) {tier : Tier} (hp : p = .whole tier) (hts : ts = []) :
    ∀ t ∈ next, t.beginsExpr = false := by
  induction h generalizing tier with
  | atom hnext => exact hnext
  | first _ _ ih => exact ih rfl hts
  | chain _ hl _ _ | compare hl _ _ | condition hl _ _ | noElse hl _ _ | otherwise hl _ _ _ =>
    obtain ⟨t, us, rfl, -⟩ := hl.derives.begins rfl
    cases hts
  | inside _ _ | unclosed _ _ => cases hts
  | operand _ _ _ | operation _ _ _ _ => cases hp

theorem Stmt.outcome_expr {c : Cursor} (htarget : c.target? = none) (hdef : c.rest.head? ≠ some (.word .defWord))
    (hret : c.rest.head? ≠ some (.word .returnWord)) : Stmt.Outcome c (Stmt.read none c) := by
  have houtcome := Expr.outcome .conditional c
  generalize hread : Expr.read .conditional c = x at houtcome
  cases houtcome with
  | @taken ts e d lt hp he =>
    obtain ⟨t, us, rfl, -⟩ := he.derives.begins rfl
    have hstarts := startsExpr_of hp htarget hdef hret (fun hnil => by cases hnil)
    rw [Stmt.read_of_startsExpr hstarts hp rfl, hread]
    exact .taken lt hp (.expr he hstarts)
  | @stuck ts d x hp hs =>
    have hstarts := startsExpr_of hp htarget hdef hret (hs.begins rfl)
    rw [Stmt.read_of_startsExpr hstarts hp rfl, hread]
    exact .stuck hp (.expr hs hstarts)

theorem Stmt.outcome (c : Cursor) : Stmt.Outcome c (Stmt.read none c) := by
  induction c using Stmt.read.induct with
  | case1 c c₁ h₁ hdef ih =>
    have hstart : ∀ start, bodyMayStart none c start = true := by simp [bodyMayStart]
    have hstop : ∀ stop, bodyMayEnd none c stop = true := by simp [bodyMayEnd]
    have hok : ∀ f, require true f = .ok () := fun _ => rfl
    rw [Stmt.read]
    simp only [hdef, hstart, hstop, Bool.or_true, hok, Except.ok_bind]
    have hdef := passes_of_next? hdef
    cases hhead : readHead c₁ with
    | error f =>
      obtain ⟨ts, d, x, hp, rfl, hs⟩ := readHead_error hhead
      exact .stuck (hdef.cons hp) (.head hs)
    | ok r =>
      rcases r with ⟨⟨f, params⟩, c₂, h₂⟩
      have hsig := passes_of_readHead hhead
      obtain ⟨breaks, hbreaks, hskip⟩ := passes_skipBreaks c₂
      have hnext := c₂.skipBreaks_head?
      have ih : Stmt.Outcome c₂.skipBreaks (Stmt.read none c₂.skipBreaks) := ih c₂ h₂
      simp only [Except.ok_bind]
      generalize Stmt.read none c₂.skipBreaks = x at ih ⊢
      cases ih with
      | taken lt hp hs => exact .taken _ (hdef.cons (hsig.trans (hskip.trans hp))) (.function hbreaks hs)
      | stuck hp hs =>
        rw [hp.head?_or] at hnext
        exact .stuck (hdef.cons (hsig.trans (hskip.trans hp))) (.body hbreaks hnext hs)
  | case2 c c₁ h₁ hret =>
    rw [Stmt.read]
    simp only [hret]
    have hret := passes_of_next? hret
    have houtcome := Expr.outcome .conditional c₁
    generalize Expr.read .conditional c₁ = x at houtcome ⊢
    cases houtcome with
    | taken lt hp he => exact .taken _ (hret.cons hp) (.ret he)
    | stuck hp hs => exact .stuck (hret.cons hp) (.ret hs)
  | case3 c y c₁ h₁ htarget hdef hret =>
    rw [Stmt.read_of_target? htarget]
    have htarget := passes_of_target? htarget
    have houtcome := Expr.outcome .conditional c₁
    generalize Expr.read .conditional c₁ = x at houtcome ⊢
    cases houtcome with
    | taken lt hp he => exact .taken _ (htarget.trans hp) (.assign he)
    | stuck hp hs => exact .stuck (htarget.trans hp) (.assign hs)
  | case4 c htarget hdef hret => exact Stmt.outcome_expr htarget (head?_ne_of_next? hdef) (head?_ne_of_next? hret)

theorem Stmt.takes_of_read {c : Cursor} {r : Read Stmt c} (h : Stmt.read none c = .ok r) :
    ∃ ts, c.Passes ts r.next ∧ Stmt.Takes ts r.next.rest.head? r.value := by
  have houtcome := Stmt.outcome c
  rw [h] at houtcome
  cases houtcome with
  | taken lt hp hs => exact ⟨_, hp, hs⟩

theorem Stmt.read_error {c : Cursor} {f : Failure} (h : Stmt.read none c = .error f) : f.At c Stmt.Stuck := by
  have houtcome := Stmt.outcome c
  rw [h] at houtcome
  cases houtcome with
  | stuck hp hs => exact ⟨_, _, _, hp, rfl, hs⟩

/-! ## Programs -/

/-- Behind a statement. At the end of the tokens a program is stuck only if a semicolon wants one more
    statement. -/
inductive Program.StuckBehind : List Token → Option Token → Expectation → Prop
  | separator {t : Token} : t.isSeparator = false → StuckBehind [] (some t) .separator
  | statement {separators ts : List Token} {next : Option Token} {x : Expectation} : separators ≠ [] →
      (∀ t ∈ separators, t.isSeparator = true) → (∀ t ∈ ts.head?.or next, t.isSeparator = false) →
      (ts.head?.or next = none → .mark .semicolon ∈ separators) → Stmt.Stuck ts next x →
      StuckBehind (separators ++ ts) next x
  | further {separators ts us : List Token} {next : Option Token} {s : Stmt} {x : Expectation} : separators ≠ [] →
      (∀ t ∈ separators, t.isSeparator = true) → Stmt.Takes ts (us.head?.or next) s → StuckBehind us next x →
      StuckBehind (separators ++ (ts ++ us)) next x

inductive Program.Stuck : List Token → Option Token → Expectation → Prop
  | first {breaks ts : List Token} {next : Option Token} {x : Expectation} : (∀ t ∈ breaks, t = .newline) →
      ts.head?.or next ≠ some .newline → Stmt.Stuck ts next x → Stuck (breaks ++ ts) next x
  | further {breaks ts us : List Token} {next : Option Token} {s : Stmt} {x : Expectation} :
      (∀ t ∈ breaks, t = .newline) → Stmt.Takes ts (us.head?.or next) s → StuckBehind us next x →
      Stuck (breaks ++ (ts ++ us)) next x

theorem Program.StuckBehind.fails {ts : List Token} {next : Option Token} {x : Expectation}
    (h : Program.StuckBehind ts next x) :
    ∀ c d : Cursor, c.Passes ts d → d.rest.head? = next → Program.readRest none c = .error (d.fail x) := by
  induction h with
  | @separator t ht =>
    intro c d hp hd
    rw [passes_nil.1 hp] at hd ⊢
    obtain ⟨us, hus⟩ := List.head?_eq_some_iff.1 hd
    rw [Program.readRest]
    simp [hus, ht, atEnd, skipWhile]
    rfl
  | statement hne hseps hnext hend hs =>
    intro c d hp hd
    obtain ⟨e, hp₁, hp⟩ := hp.split
    have hhead := hp.head?_or
    rw [hd] at hhead
    rw [Program.readRest_of_statement hne hseps hp₁ (hhead ▸ hnext) (hhead ▸ hend), hs.fails e d hp hd]
    rfl
  | further hne hseps hs _ ih =>
    intro c d hp hd
    obtain ⟨e, hp₁, hp⟩ := hp.split
    obtain ⟨c₁, hp₂, hp₃⟩ := hp.split
    obtain ⟨t, us, rfl, ht⟩ := hs.derives.begins
    have hhead : e.rest.head? = some t := hp₂.head?
    obtain ⟨lt, hread⟩ := hs.reads e c₁ hp₂ (by rw [hp₃.head?_or, hd])
    rw [Program.readRest_of_statement hne hseps hp₁ (by rw [hhead]; simpa using ht) (by rw [hhead]; simp), hread]
    simp [ih c₁ d hp₃ hd]

theorem Program.Stuck.fails {ts : List Token} {next : Option Token} {x : Expectation} (h : Program.Stuck ts next x)
    {c d : Cursor} (hp : c.Passes ts d) (hd : d.rest.head? = next) : Program.read none c = .error (d.fail x) := by
  unfold Program.read
  cases h with
  | first hbreaks hnext hs =>
    obtain ⟨e, hskip, hp⟩ := hp.split
    obtain rfl := hskip.skipBreaks_eq hp hbreaks (by rw [hd]; exact hnext)
    simp [hs.fails _ d hp hd]
  | further hbreaks hs hrest =>
    obtain ⟨e, hskip, hp⟩ := hp.split
    obtain ⟨c₁, hp₁, hp₂⟩ := hp.split
    obtain ⟨lt, hread⟩ := hs.reads e c₁ hp₁ (by rw [hp₂.head?_or, hd])
    obtain rfl := hskip.skipBreaks hbreaks (hs.derives.not_break hp₁)
    simp [hread, hrest.fails c₁ d hp₂ hd]

theorem Program.readRest_error {c : Cursor} {f : Failure} (h : Program.readRest none c = .error f) :
    f.At c Program.StuckBehind := by
  induction c using Program.readRest.induct with
  | case1 c =>
    rename_i hdone
    rw [Program.readRest, if_pos hdone] at h
    cases h
  | case2 c =>
    rename_i hdone hempty
    rw [Program.readRest, if_neg hdone, if_pos hempty] at h
    cases h
    have hnil : c.rest.takeWhile Token.isSeparator = [] := List.isEmpty_iff.1 hempty
    have hskip : c.skipWhile Token.isSeparator = c := skipWhile_eq_self hnil
    replace hdone : ¬((c.skipWhile Token.isSeparator).atEnd &&
      !(c.rest.takeWhile Token.isSeparator).contains (.mark .semicolon)) = true := hdone
    have hmore : c.rest ≠ [] := fun hrest => hdone (by simp [hnil, hskip, atEnd_iff.2 hrest])
    obtain ⟨t, us, hrest⟩ := List.exists_cons_of_ne_nil hmore
    have ht : t.isSeparator = false := by
      apply skipWhile_head? (c := c)
      rw [hskip, hrest]
      rfl
    exact ⟨[], c, _, .refl c, rfl, by rw [hrest]; exact .separator ht⟩
  | case3 c =>
    rename_i hdone hempty ih
    rw [Program.readRest, if_neg hdone, if_neg hempty] at h
    have hne : c.rest.takeWhile Token.isSeparator ≠ [] := fun hnil => hempty (List.isEmpty_iff.2 hnil)
    have hseps : ∀ t ∈ c.rest.takeWhile Token.isSeparator, t.isSeparator = true :=
      fun t ht => List.all_eq_true.1 List.all_takeWhile t ht
    have hskip := passes_skipWhile Token.isSeparator c
    rcases Except.bind_eq_error.1 h with h | ⟨⟨s, c₁, lt⟩, hs, h⟩
    · obtain ⟨ts, d, x, hp, rfl, hs⟩ := Stmt.read_error h
      refine ⟨_, d, x, hskip.trans hp, rfl, .statement hne hseps ?_ ?_ hs⟩
      · intro t ht
        rw [← hp.head?_or] at ht
        exact skipWhile_head? ht
      · intro hnone
        rw [← hp.head?_or] at hnone
        have hend := atEnd_iff.2 (List.head?_eq_none_iff.1 hnone)
        have hdone : ((c.skipWhile Token.isSeparator).atEnd &&
          !(c.rest.takeWhile Token.isSeparator).contains (.mark .semicolon)) = false := Bool.eq_false_iff.2 hdone
        simpa [hend] using hdone
    · obtain ⟨ts, hp, hs⟩ := Stmt.takes_of_read hs
      rcases Except.bind_eq_error.1 h with h | ⟨r, -, h⟩
      · obtain ⟨us, d, x, hp', rfl, hrest⟩ := ih c₁ lt h
        rw [hp'.head?_or] at hs
        exact ⟨_, d, x, hskip.trans (hp.trans hp'), rfl, .further hne hseps hs hrest⟩
      · cases h

theorem Program.read_error {c : Cursor} {f : Failure} (h : Program.read none c = .error f) :
    f.At c Program.Stuck := by
  unfold Program.read at h
  obtain ⟨breaks, hbreaks, hskip⟩ := passes_skipBreaks c
  rcases Except.bind_eq_error.1 h with h | ⟨⟨s, c₁, lt⟩, hs, h⟩
  · obtain ⟨ts, d, x, hp, rfl, hs⟩ := Stmt.read_error h
    have hnext := c.skipBreaks_head?
    rw [hp.head?_or] at hnext
    exact ⟨_, d, x, hskip.trans hp, rfl, .first hbreaks hnext hs⟩
  · obtain ⟨ts, hp, hs⟩ := Stmt.takes_of_read hs
    rcases Except.bind_eq_error.1 h with h | ⟨r, -, h⟩
    · obtain ⟨us, d, x, hp', rfl, hrest⟩ := Program.readRest_error h
      rw [hp'.head?_or] at hs
      exact ⟨_, d, x, hskip.trans (hp.trans hp'), rfl, .further hbreaks hs hrest⟩
    · cases h

/-! ## From the start -/

theorem Program.ofTokens_eq_error {layout : Option Layout} {ts : List Token} {e : Unexpected} :
    Program.ofTokens layout ts = .error e ↔ ∃ f, Program.read layout (Cursor.start ts) = .error f ∧ f.error = e := by
  unfold Program.ofTokens Program.readFrom
  rcases Program.read layout (Cursor.start ts) with f | ⟨q, last⟩ <;> simp

/-- Tokens are no program exactly if reading is stuck behind some of them. -/
theorem Program.ofTokens_error_iff_stuck {ts : List Token} {e : Unexpected} :
    Program.ofTokens none ts = .error e ↔
      ∃ us vs x, ts = us ++ vs ∧ Program.Stuck us vs.head? x ∧ e = ⟨x, vs.head?, us.length⟩ := by
  rw [Program.ofTokens_eq_error]
  constructor
  · rintro ⟨f, hf, rfl⟩
    obtain ⟨us, d, x, hp, rfl, hs⟩ := Program.read_error hf
    refine ⟨us, d.rest, x, hp.rest, hs, ?_⟩
    have hindex : d.index = us.length := by simpa [Cursor.start] using hp.index
    simp [Cursor.fail, hindex]
  · rintro ⟨us, vs, x, rfl, hs, rfl⟩
    exact ⟨_, hs.fails (passes_start us vs) rfl, rfl⟩

end ScriptToC
