/-
  ScriptToC.Proofs.ProgramReading — programs are read exactly as the grammar has them
  (`ofTokens_eq_ok_iff_derives`).

  A statement ends in front of a separator or at the end of the tokens. There no operator can go on
  with its last expression, so the readers of `ScriptToC.Program.Read` stop where the grammar does.
  A layout adds conditions on functions and nothing else: `read_function_iff` has them all.
-/

import ScriptToC.Proofs.Lookahead

namespace ScriptToC

open Cursor

theorem Reading.Gives.unique {α : Type} {c : Cursor} {reading : Reading α c} {a b : α} {d e : Cursor}
    (h₁ : reading.Gives a d) (h₂ : reading.Gives b e) : a = b ∧ d = e := by
  rcases h₁ with ⟨_, h₁⟩
  rcases h₂ with ⟨_, h₂⟩
  rw [h₁] at h₂
  cases h₂
  exact ⟨rfl, rfl⟩

/-! ## Signatures -/

theorem nameTokens_cons_cons (x y : String) (names : List String) :
    nameTokens (x :: y :: names) = .name x :: .mark .comma :: nameTokens (y :: names) := rfl

theorem nameTokens_mem {names : List String} {t : Token} (h : t ∈ nameTokens names) :
    t = .mark .comma ∨ ∃ x, t = .name x := by
  induction names with
  | nil => cases h
  | cons x names ih =>
    rcases names with _ | ⟨y, names⟩
    · exact .inr ⟨x, List.mem_singleton.1 h⟩
    · rw [nameTokens_cons_cons, List.mem_cons, List.mem_cons] at h
      rcases h with rfl | rfl | h
      · exact .inr ⟨x, rfl⟩
      · exact .inl rfl
      · exact ih h

/-- A signature stands on one line and has no keyword. -/
theorem signatureTokens_mem {name : String} {params : List String} {t : Token}
    (h : t ∈ signatureTokens name params) : (∃ m, t = .mark m) ∨ ∃ x, t = .name x := by
  simp only [signatureTokens, List.mem_cons, List.mem_append, List.not_mem_nil, or_false] at h
  rcases h with rfl | rfl | h | rfl | rfl
  · exact .inr ⟨name, rfl⟩
  · exact .inl ⟨_, rfl⟩
  · exact (nameTokens_mem h).imp_left (fun hcomma => ⟨_, hcomma⟩)
  · exact .inl ⟨_, rfl⟩
  · exact .inl ⟨_, rfl⟩

theorem signature_no_break (name : String) (params : List String) : .newline ∉ signatureTokens name params :=
  fun hmem => by simpa using signatureTokens_mem hmem

theorem passes_of_readNames {c : Cursor} {r : Read (List String) c} (h : readNames c = .ok r) :
    r.value ≠ [] ∧ c.Passes (nameTokens r.value ++ [.mark .closeParen]) r.next := by
  induction c using readNames.induct with
  | case1 c ih =>
    rw [readNames] at h
    obtain ⟨⟨x, c₁, h₁⟩, hx, h⟩ := Except.bind_eq_ok.1 h
    have hp₁ := passes_of_expectName hx
    dsimp only at hp₁ h
    split at h
    · rename_i v c₂ h₂ hcomma
      obtain ⟨⟨xs, c₃, h₃⟩, hxs, h⟩ := Except.bind_eq_ok.1 h
      cases h
      obtain ⟨hne, hp₃⟩ := ih c₁ h₁ c₂ h₂ hxs
      obtain ⟨y, ys, rfl⟩ := List.exists_cons_of_ne_nil hne
      exact ⟨by simp, hp₁.cons ((passes_of_take? hcomma).cons hp₃)⟩
    · obtain ⟨⟨v, c₂, h₂⟩, hclose, h⟩ := Except.bind_eq_ok.1 h
      cases h
      exact ⟨by simp, hp₁.cons (passes_of_expect hclose)⟩

theorem passes_of_readParameters {c : Cursor} {r : Read (List String) c} (h : readParameters c = .ok r) :
    c.Passes (nameTokens r.value ++ [.mark .closeParen]) r.next := by
  unfold readParameters at h
  split at h
  · rename_i v c₁ h₁ hclose
    cases h
    exact passes_of_take? hclose
  · exact (passes_of_readNames h).2

theorem passes_of_readHead {c : Cursor} {r : Read (String × List String) c} (h : readHead c = .ok r) :
    c.Passes (signatureTokens r.value.1 r.value.2) r.next := by
  unfold readHead at h
  obtain ⟨⟨f, c₁, h₁⟩, hf, h⟩ := Except.bind_eq_ok.1 h
  obtain ⟨⟨v, c₂, h₂⟩, hopen, h⟩ := Except.bind_eq_ok.1 h
  obtain ⟨⟨ps, c₃, h₃⟩, hps, h⟩ := Except.bind_eq_ok.1 h
  obtain ⟨⟨w, c₄, h₄⟩, hcolon, h⟩ := Except.bind_eq_ok.1 h
  cases h
  have hp := (passes_of_readParameters hps).trans (passes_of_expect hcolon)
  rw [List.append_assoc] at hp
  exact (passes_of_expectName hf).cons ((passes_of_expect hopen).cons hp)

theorem Cursor.Passes.readNames {x : String} {xs : List String} {c d : Cursor}
    (h : c.Passes (nameTokens (x :: xs) ++ [.mark .closeParen]) d) : (readNames c).Gives (x :: xs) d := by
  induction xs generalizing x c with
  | nil =>
    obtain ⟨c₁, hx, hclose⟩ := h.uncons
    obtain ⟨_, hx⟩ := hx.expectName .parameterName
    have hcomma : c₁.take? (.mark .comma) = none := take?_eq_none (by rw [hclose.rest]; simp)
    obtain ⟨_, hclose⟩ := hclose.expect .parameterListEnd
    exact ⟨by omega, by rw [ScriptToC.readNames]; simp [hx, hcomma, hclose]⟩
  | cons y ys ih =>
    obtain ⟨c₁, hx, h⟩ := h.uncons
    obtain ⟨c₂, hcomma, h⟩ := h.uncons
    obtain ⟨_, hx⟩ := hx.expectName .parameterName
    obtain ⟨_, hcomma⟩ := hcomma.take?
    obtain ⟨_, hys⟩ := ih h
    exact ⟨by omega, by rw [ScriptToC.readNames]; simp [hx, hcomma, hys]⟩

theorem Cursor.Passes.readParameters {params : List String} {c d : Cursor}
    (h : c.Passes (nameTokens params ++ [.mark .closeParen]) d) : (readParameters c).Gives params d := by
  unfold ScriptToC.readParameters
  cases params with
  | nil =>
    obtain ⟨lt, hclose⟩ := Passes.take? h
    exact ⟨lt, by rw [hclose]; rfl⟩
  | cons x xs =>
    have hclose : c.take? (.mark .closeParen) = none :=
      take?_eq_none (by cases xs <;> simp [h.rest, nameTokens])
    rw [hclose]
    exact h.readNames

theorem Cursor.Passes.readHead {name : String} {params : List String} {c d : Cursor}
    (h : c.Passes (signatureTokens name params) d) : (readHead c).Gives (name, params) d := by
  have hsplit : nameTokens params ++ [.mark .closeParen, .mark .colon] =
      (nameTokens params ++ [.mark .closeParen]) ++ [Token.mark .colon] := by simp
  rw [signatureTokens, hsplit] at h
  obtain ⟨c₁, hname, h⟩ := h.uncons
  obtain ⟨c₂, hopen, h⟩ := h.uncons
  obtain ⟨c₃, hparams, hcolon⟩ := h.split
  obtain ⟨_, hname⟩ := hname.expectName .functionName
  obtain ⟨_, hopen⟩ := hopen.expect .parameterList
  obtain ⟨_, hparams⟩ := hparams.readParameters
  obtain ⟨_, hcolon⟩ := hcolon.expect .bodyColon
  exact ⟨by omega, by simp [ScriptToC.readHead, hname, hopen, hparams, hcolon]⟩

/-! ## Statements -/

theorem passes_skipBreaks (c : Cursor) :
    ∃ breaks, (∀ t ∈ breaks, t = .newline) ∧ c.Passes breaks c.skipBreaks := by
  refine ⟨c.rest.takeWhile (· = .newline), fun t ht => ?_, passes_skipWhile _ c⟩
  simpa using List.all_eq_true.1 List.all_takeWhile t ht

/-- A name with an equals sign behind it opens an assignment. -/
theorem Stmt.read_of_target? {layout : Option Layout} {c c₁ : Cursor} {x : String}
    {h₁ : c₁.rest.length < c.rest.length} (h : c.target? = some ⟨x, c₁, h₁⟩) :
    Stmt.read layout c = (do
      let ⟨value, c₂, h₂⟩ ← Expr.read .conditional c₁
      return ⟨.assign x value, c₂, Nat.lt_trans h₂ h₁⟩) := by
  have hname : c.rest.head? = some (.name x) := (passes_of_target? h).head?
  rw [Stmt.read]
  split
  · rename_i c₁ h₁ hn
    rw [(passes_of_next? hn).head?] at hname
    cases hname
  · rename_i c₁ h₁ hn
    rw [(passes_of_next? hn).head?] at hname
    cases hname
  · simp only [h]

/-- What opens no other statement is an expression. -/
theorem Stmt.read_of_no_form {layout : Option Layout} {c : Cursor} (htarget : c.target? = none)
    (hdef : c.rest.head? ≠ some (.word .defWord)) (hret : c.rest.head? ≠ some (.word .returnWord)) :
    Stmt.read layout c = (do
      let ⟨value, c₁, h₁⟩ ← Expr.read .conditional c
      return ⟨.expr value, c₁, h₁⟩) := by
  rw [Stmt.read]
  split
  · rename_i c₁ h₁ hn
    exact absurd (passes_of_next? hn).head? hdef
  · rename_i c₁ h₁ hn
    exact absurd (passes_of_next? hn).head? hret
  · simp only [htarget]

theorem Stmt.derives_of_read {layout : Option Layout} {c : Cursor} {r : Read Stmt c}
    (h : Stmt.read layout c = .ok r) : ∃ ts, c.Passes ts r.next ∧ Stmt.Derives ts r.value := by
  induction c using Stmt.read.induct with
  | case1 c c₁ h₁ hdef ih =>
    rw [Stmt.read] at h
    simp only [hdef] at h
    obtain ⟨⟨⟨f, ps⟩, c₂, h₂⟩, hhead, h⟩ := Except.bind_eq_ok.1 h
    obtain ⟨_, _, h⟩ := Except.bind_eq_ok.1 h
    obtain ⟨⟨s, c₄, h₄⟩, hbody, h⟩ := Except.bind_eq_ok.1 h
    obtain ⟨_, _, h⟩ := Except.bind_eq_ok.1 h
    cases h
    obtain ⟨breaks, hbreaks, hp⟩ := passes_skipBreaks c₂
    obtain ⟨ts, hts, ds⟩ := ih c₂ h₂ hbody
    exact ⟨_, (passes_of_next? hdef).cons ((passes_of_readHead hhead).trans (hp.trans hts)),
      .function hbreaks ds⟩
  | case2 c c₁ h₁ hret =>
    rw [Stmt.read] at h
    simp only [hret] at h
    obtain ⟨⟨e, c₂, h₂⟩, he, h⟩ := Except.bind_eq_ok.1 h
    cases h
    obtain ⟨ts, hts, de⟩ := Expr.derives_of_read he
    exact ⟨_, (passes_of_next? hret).cons hts, .ret de⟩
  | case3 c x c₁ h₁ htarget hdef hret =>
    rw [Stmt.read_of_target? htarget] at h
    obtain ⟨⟨e, c₂, h₂⟩, he, h⟩ := Except.bind_eq_ok.1 h
    cases h
    obtain ⟨ts, hts, de⟩ := Expr.derives_of_read he
    exact ⟨_, (passes_of_target? htarget).trans hts, .assign de⟩
  | case4 c htarget hdef hret =>
    rw [Stmt.read_of_no_form htarget (head?_ne_of_next? hdef) (head?_ne_of_next? hret)] at h
    obtain ⟨⟨e, c₂, h₂⟩, he, h⟩ := Except.bind_eq_ok.1 h
    cases h
    obtain ⟨ts, hts, de⟩ := Expr.derives_of_read he
    exact ⟨_, hts, .expr de⟩

/-- Nothing of a statement can follow. -/
def Cursor.EndsStmt (c : Cursor) : Prop := ∀ t ∈ c.rest.head?, t.isSeparator = true

theorem Cursor.EndsStmt.ends {c : Cursor} (h : c.EndsStmt) (tier : Tier) : tier.EndsAt c.rest.head? := by
  intro t ht
  have hsep := h t ht
  cases t with
  | word k => simp [Token.isSeparator] at hsep
  | arith op => simp [Token.isSeparator] at hsep
  | compare op => simp [Token.isSeparator] at hsep
  | number n | name x | mark m | newline => rfl

theorem Cursor.Passes.skipBreaks {c d : Cursor} {breaks : List Token} (h : c.Passes breaks d)
    (hbreaks : ∀ t ∈ breaks, t = .newline) (hd : ∀ t ∈ d.rest.head?, t ≠ .newline) : c.skipBreaks = d :=
  (h.skipWhile (fun t ht => by simpa using hbreaks t ht) (fun t ht => by simpa using hd t ht)).2

theorem Stmt.Derives.not_break {ts : List Token} {s : Stmt} (h : Stmt.Derives ts s) {c d : Cursor}
    (hp : c.Passes ts d) : ∀ t ∈ c.rest.head?, t ≠ .newline := by
  obtain ⟨t, us, rfl, ht⟩ := h.begins
  rw [hp.rest]
  rintro _ ⟨⟩ rfl
  simp [Token.isSeparator] at ht

theorem Stmt.read_behind_return {layout : Option Layout} {c c₁ d : Cursor} {e : Expr}
    (hret : c.Passes [.word .returnWord] c₁) (he : (Expr.read .conditional c₁).Gives e d) :
    (Stmt.read layout c).Gives (.ret e) d := by
  obtain ⟨_, hret⟩ := hret.next?
  obtain ⟨_, he⟩ := he
  exact ⟨by omega, by rw [Stmt.read]; simp [hret, he]⟩

theorem Stmt.read_behind_target {layout : Option Layout} {c c₁ d : Cursor} {x : String} {e : Expr}
    (htarget : c.Passes [.name x, .mark .assign] c₁) (he : (Expr.read .conditional c₁).Gives e d) :
    (Stmt.read layout c).Gives (.assign x e) d := by
  obtain ⟨_, htarget⟩ := htarget.target?
  obtain ⟨_, he⟩ := he
  exact ⟨by omega, by rw [Stmt.read_of_target? htarget]; simp [he]⟩

theorem Stmt.read_ret {layout : Option Layout} {c d : Cursor} {ts : List Token} {e : Expr}
    (he : Expr.Derives (.whole .conditional) ts e) (hp : c.Passes (.word .returnWord :: ts) d) (hd : d.EndsStmt) :
    (Stmt.read layout c).Gives (.ret e) d := by
  obtain ⟨c₁, hret, hp⟩ := hp.uncons
  exact Stmt.read_behind_return hret (he.read hp (hd.ends _))

theorem Stmt.read_assign {layout : Option Layout} {c d : Cursor} {x : String} {ts : List Token} {e : Expr}
    (he : Expr.Derives (.whole .conditional) ts e) (hp : c.Passes (.name x :: .mark .assign :: ts) d)
    (hd : d.EndsStmt) : (Stmt.read layout c).Gives (.assign x e) d := by
  have hsplit : c.Passes ([.name x, .mark .assign] ++ ts) d := hp
  obtain ⟨c₁, htarget, hp⟩ := hsplit.split
  exact Stmt.read_behind_target htarget (he.read hp (hd.ends _))

/-- An expression has no equals sign, and none follows a statement. -/
theorem Expr.Derives.target?_eq_none {tier : Tier} {ts : List Token} {e : Expr}
    (he : Expr.Derives (.whole tier) ts e) {c d : Cursor} (hp : c.Passes ts d) (hd : d.EndsStmt) :
    c.target? = none := by
  cases htarget : c.target? with
  | none => rfl
  | some r =>
    have hrest := (passes_of_target? htarget).rest
    rw [hp.rest] at hrest
    obtain ⟨t, us, rfl, -⟩ := he.begins rfl
    rcases us with _ | ⟨u, us⟩
    · have := hd (.mark .assign) (by simp_all)
      simp [Token.isSeparator] at this
    · have := he.inExpr u (by simp)
      simp_all [Token.inExpr]

theorem Stmt.read_expr {layout : Option Layout} {c d : Cursor} {ts : List Token} {e : Expr}
    (he : Expr.Derives (.whole .conditional) ts e) (hp : c.Passes ts d) (hd : d.EndsStmt) :
    (Stmt.read layout c).Gives (.expr e) d := by
  have htarget := he.target?_eq_none hp hd
  obtain ⟨lt, hread⟩ := he.read hp (hd.ends _)
  obtain ⟨t, us, rfl, ht⟩ := he.begins rfl
  have hnot : ∀ k, c.rest.head? ≠ some (.word k) := by
    intro k hk
    rw [hp.head?] at hk
    cases hk
    cases ht
  exact ⟨lt, by rw [Stmt.read_of_no_form htarget (hnot _) (hnot _)]; simp [hread]⟩

/-- A head stands on one line. -/
theorem Cursor.Passes.line_signature {c d : Cursor} {name : String} {params : List String}
    (h : c.Passes (.word .defWord :: signatureTokens name params) d) : d.line = c.line := by
  rw [h.line, List.count_cons_of_ne (by simp), List.count_eq_zero.2 (signature_no_break name params), Nat.add_zero]

/-- What a layout asks of a function whose `def` is at `head`, and whose body lies between `start` and
    `stop`. -/
def LaidOut (layout : Option Layout) (head start stop : Cursor) : Prop :=
  start.line = head.line ∨ (bodyMayStart layout head start = true ∧ bodyMayEnd layout head stop = true)

theorem laidOut_none (head start stop : Cursor) : LaidOut none head start stop :=
  .inr ⟨by simp [bodyMayStart], by simp [bodyMayEnd]⟩

/-- A function is read when its body is and the layout allows it. -/
theorem Stmt.read_function_iff {layout : Option Layout} {c colon d : Cursor} {name : String}
    {params : List String} {s : Stmt} (hp : c.Passes (.word .defWord :: signatureTokens name params) colon) :
    (Stmt.read layout c).Gives s d ↔
      ∃ body, s = .function name params [body] ∧ (Stmt.read layout colon.skipBreaks).Gives body d ∧
        LaidOut layout c colon.skipBreaks d := by
  have hcolon := hp.line_signature
  obtain ⟨c₁, hdef, hsig⟩ := hp.uncons
  obtain ⟨_, hdef⟩ := hdef.next?
  obtain ⟨_, hhead⟩ := hsig.readHead
  rw [LaidOut, ← hcolon]
  constructor
  · intro hgives
    rcases hgives with ⟨lt, h⟩
    rw [Stmt.read] at h
    simp only [hdef, hhead, Except.ok_bind] at h
    obtain ⟨_, hstart, h⟩ := Except.bind_eq_ok.1 h
    obtain ⟨⟨body, c₄, h₄⟩, hbody, h⟩ := Except.bind_eq_ok.1 h
    obtain ⟨_, hstop, h⟩ := Except.bind_eq_ok.1 h
    cases h
    rw [require_eq_ok, Bool.or_eq_true, beq_iff_eq] at hstart hstop
    refine ⟨body, rfl, ⟨h₄, hbody⟩, ?_⟩
    rcases hstart with hline | hstart
    · exact .inl hline
    · rcases hstop with hline | hstop
      · exact .inl hline
      · exact .inr ⟨hstart, hstop⟩
  · intro hparts
    rcases hparts with ⟨body, rfl, ⟨_, hbody⟩, hlaid⟩
    have hle := colon.skipBreaks_le
    refine ⟨by omega, ?_⟩
    rw [Stmt.read]
    rcases hlaid with hline | ⟨hstart, hstop⟩
    · simp [hdef, hhead, hbody, hline, require]
    · simp [hdef, hhead, hbody, hstart, hstop, require]

theorem Stmt.Derives.read {ts : List Token} {s : Stmt} (h : Stmt.Derives ts s) :
    ∀ {c d : Cursor}, c.Passes ts d → d.EndsStmt → (Stmt.read none c).Gives s d := by
  induction h with
  | assign he => exact fun hp hd => Stmt.read_assign he hp hd
  | ret he => exact fun hp hd => Stmt.read_ret he hp hd
  | expr he => exact fun hp hd => Stmt.read_expr he hp hd
  | @function name params breaks ts s hbreaks hs ih =>
    intro c d hp hd
    rw [← List.cons_append] at hp
    obtain ⟨colon, hsig, hp⟩ := hp.split
    obtain ⟨start, hskip, hp⟩ := hp.split
    have hstart := hskip.skipBreaks hbreaks (hs.not_break hp)
    rw [Stmt.read_function_iff hsig, hstart]
    exact ⟨s, rfl, ih hp hd, laidOut_none ..⟩

/-! ## Programs -/

theorem Cursor.atEnd_iff {c : Cursor} : c.atEnd = true ↔ c.rest = [] := List.isEmpty_iff

theorem Program.readRest_done {layout : Option Layout} {c d : Cursor} {breaks : List Token}
    (hbreaks : ∀ t ∈ breaks, t = .newline) (hp : c.Passes breaks d) (hd : d.rest = []) :
    Program.readRest layout c = .ok ([], d) := by
  obtain ⟨htake, rfl⟩ := hp.skipWhile (p := Token.isSeparator)
    (fun t ht => by simp [hbreaks t ht, Token.isSeparator]) (by simp [hd])
  have hsemi : Token.mark .semicolon ∉ breaks := fun hmem => by simpa using hbreaks _ hmem
  rw [Program.readRest]
  simp [htake, hsemi, atEnd_iff.2 hd]

/-- Behind separators a program goes on with a statement, and at the end of the tokens if there is a semicolon
    among them. -/
theorem Program.readRest_of_statement {layout : Option Layout} {c next : Cursor} {separators : List Token}
    (hne : separators ≠ []) (hseps : ∀ t ∈ separators, t.isSeparator = true) (hp : c.Passes separators next)
    (hnext : ∀ t ∈ next.rest.head?, t.isSeparator = false)
    (hend : next.rest.head? = none → .mark .semicolon ∈ separators) :
    Program.readRest layout c = (do
      let ⟨s, c₁, _⟩ ← Stmt.read layout next
      let (ss, last) ← Program.readRest layout c₁
      return (s :: ss, last)) := by
  obtain ⟨htake, rfl⟩ := hp.skipWhile hseps hnext
  have hnot : ((c.skipWhile Token.isSeparator).atEnd && !separators.contains (.mark .semicolon)) = false := by
    cases hatEnd : (c.skipWhile Token.isSeparator).atEnd with
    | false => rfl
    | true =>
      have hsemicolon := hend (by rw [atEnd_iff.1 hatEnd]; rfl)
      simp [hsemicolon]
  rw [Program.readRest]
  simp only [htake, hnot, Bool.false_eq_true, if_false, List.isEmpty_iff, hne]

/-- A statement is read, and then the ones that follow it. -/
theorem Program.cons_iff {layout : Option Layout} {c last : Cursor} {p : Program} :
    (do
        let ⟨s, c₁, _⟩ ← Stmt.read layout c
        let (ss, last) ← Program.readRest layout c₁
        return (s :: ss, last)) = (.ok (p, last) : Except Failure (Program × Cursor)) ↔
      ∃ s rest c₁, p = s :: rest ∧ (Stmt.read layout c).Gives s c₁ ∧
        Program.readRest layout c₁ = .ok (rest, last) := by
  constructor
  · intro h
    obtain ⟨⟨s, c₁, lt⟩, hs, h⟩ := Except.bind_eq_ok.1 h
    obtain ⟨⟨rest, last'⟩, hrest, h⟩ := Except.bind_eq_ok.1 h
    cases h
    exact ⟨s, rest, c₁, rfl, ⟨lt, hs⟩, hrest⟩
  · intro hparts
    rcases hparts with ⟨s, rest, c₁, rfl, ⟨_, hs⟩, hrest⟩
    simp [hs, hrest]

theorem Program.readRest_iff {layout : Option Layout} {c next last : Cursor} {separators : List Token}
    {ss : Program} (hne : separators ≠ []) (hseps : ∀ t ∈ separators, t.isSeparator = true)
    (hp : c.Passes separators next) {t : Token} (hnext : next.rest.head? = some t)
    (ht : t.isSeparator = false) :
    Program.readRest layout c = .ok (ss, last) ↔
      ∃ s rest c₁, ss = s :: rest ∧ (Stmt.read layout next).Gives s c₁ ∧
        Program.readRest layout c₁ = .ok (rest, last) := by
  rw [Program.readRest_of_statement hne hseps hp (by rw [hnext]; simpa using ht) (by simp [hnext])]
  exact Program.cons_iff

theorem Program.continues_of_readRest {layout : Option Layout} {c last : Cursor} {ss : Program}
    (h : Program.readRest layout c = .ok (ss, last)) :
    ∃ us, c.Passes us last ∧ last.rest = [] ∧ Program.Continues us ss := by
  induction c using Program.readRest.induct generalizing ss with
  | case1 c =>
    rename_i hdone
    rw [Program.readRest, if_pos hdone] at h
    cases h
    rw [Bool.and_eq_true, atEnd_iff, Bool.not_eq_true', ← Bool.not_eq_true, List.contains_iff_mem] at hdone
    refine ⟨_, passes_skipWhile _ c, hdone.1, .done (fun t ht => ?_)⟩
    have hsep := List.all_eq_true.1 List.all_takeWhile t ht
    simp only [Token.isSeparator, Bool.or_eq_true, decide_eq_true_eq] at hsep
    rcases hsep with rfl | rfl
    · rfl
    · exact absurd ht hdone.2
  | case2 c =>
    rename_i hdone hempty
    rw [Program.readRest, if_neg hdone, if_pos hempty] at h
    cases h
  | case3 c =>
    rename_i hdone hempty ih
    rw [Program.readRest, if_neg hdone, if_neg hempty] at h
    obtain ⟨⟨s, c₁, lt⟩, hs, h⟩ := Except.bind_eq_ok.1 h
    obtain ⟨⟨rest, last'⟩, hrest, h⟩ := Except.bind_eq_ok.1 h
    cases h
    obtain ⟨ts, hts, ds⟩ := Stmt.derives_of_read hs
    obtain ⟨us, hus, hlast, hc⟩ := ih c₁ lt hrest
    exact ⟨_, (passes_skipWhile _ c).trans (hts.trans hus), hlast,
      .next (fun hnil => hempty (List.isEmpty_iff.2 hnil))
        (fun t ht => List.all_eq_true.1 List.all_takeWhile t ht) ds hc⟩

theorem Program.Continues.endsStmt {us : List Token} {ss : Program} (h : Program.Continues us ss)
    {c last : Cursor} (hp : c.Passes us last) (hlast : last.rest = []) : c.EndsStmt := by
  intro t ht
  rw [hp.rest, hlast] at ht
  cases h with
  | done hbreaks =>
    simp [hbreaks t (List.mem_of_mem_head? (by simpa using ht)), Token.isSeparator]
  | next hne hseps _ _ =>
    obtain ⟨u, seps, rfl⟩ := List.exists_cons_of_ne_nil hne
    have : u = t := by simpa using ht
    exact this ▸ hseps u (by simp)

theorem Program.Continues.readRest {us : List Token} {ss : Program} (h : Program.Continues us ss) :
    ∀ {c last : Cursor}, c.Passes us last → last.rest = [] → Program.readRest none c = .ok (ss, last) := by
  induction h with
  | done hbreaks => exact fun hp hlast => Program.readRest_done hbreaks hp hlast
  | next hne hseps hs hrest ih =>
    intro c last hp hlast
    obtain ⟨next, hp₁, hp⟩ := hp.split
    obtain ⟨c₁, hp₂, hp₃⟩ := hp.split
    obtain ⟨t, us, rfl, ht⟩ := hs.begins
    exact (Program.readRest_iff hne hseps hp₁ (by rw [hp₂.rest]; rfl) ht).2
      ⟨_, _, c₁, rfl, hs.read hp₂ (hrest.endsStmt hp₃ hlast), ih hp₃ hlast⟩

theorem Program.read_iff {layout : Option Layout} {c last : Cursor} {p : Program} :
    Program.read layout c = .ok (p, last) ↔
      ∃ s rest c₁, p = s :: rest ∧ (Stmt.read layout c.skipBreaks).Gives s c₁ ∧
        Program.readRest layout c₁ = .ok (rest, last) :=
  Program.cons_iff

theorem Program.derives_of_read {layout : Option Layout} {c last : Cursor} {p : Program}
    (h : Program.read layout c = .ok (p, last)) :
    ∃ ts, c.Passes ts last ∧ last.rest = [] ∧ Program.Derives ts p := by
  obtain ⟨s, rest, c₁, rfl, ⟨_, hs⟩, hrest⟩ := Program.read_iff.1 h
  obtain ⟨breaks, hbreaks, hp⟩ := passes_skipBreaks c
  obtain ⟨ts, hts, ds⟩ := Stmt.derives_of_read hs
  obtain ⟨us, hus, hlast, hc⟩ := Program.continues_of_readRest hrest
  exact ⟨_, hp.trans (hts.trans hus), hlast, .start hbreaks ds hc⟩

theorem Program.Derives.read {ts : List Token} {p : Program} (h : Program.Derives ts p) {c last : Cursor}
    (hp : c.Passes ts last) (hlast : last.rest = []) : Program.read none c = .ok (p, last) := by
  cases h with
  | start hbreaks hs hrest =>
    obtain ⟨next, hp₁, hp⟩ := hp.split
    obtain ⟨c₁, hp₂, hp₃⟩ := hp.split
    obtain rfl := hp₁.skipBreaks hbreaks (hs.not_break hp₂)
    exact Program.read_iff.2 ⟨_, _, c₁, rfl, hs.read hp₂ (hrest.endsStmt hp₃ hlast), hrest.readRest hp₃ hlast⟩

theorem Program.ofTokens_eq_ok {layout : Option Layout} {ts : List Token} {p : Program} :
    Program.ofTokens layout ts = .ok p ↔ ∃ last, Program.read layout (Cursor.start ts) = .ok (p, last) := by
  unfold Program.ofTokens Program.readFrom
  rcases Program.read layout (Cursor.start ts) with _ | ⟨q, last⟩ <;> simp

theorem Program.derives_of_ofTokens {layout : Option Layout} {ts : List Token} {p : Program}
    (h : Program.ofTokens layout ts = .ok p) : Program.Derives ts p := by
  obtain ⟨last, h⟩ := Program.ofTokens_eq_ok.1 h
  obtain ⟨us, hp, hlast, hd⟩ := Program.derives_of_read h
  have : ts = us := by simpa [hlast, Cursor.start] using hp.rest
  exact this ▸ hd

theorem Program.Derives.ofTokens {ts : List Token} {p : Program} (h : Program.Derives ts p) :
    Program.ofTokens none ts = .ok p := by
  have hp := passes_start ts []
  rw [List.append_nil] at hp
  exact Program.ofTokens_eq_ok.2 ⟨_, h.read hp rfl⟩

/-- Without a layout, reading accepts exactly the programs of the grammar, and no tokens have two
    trees. -/
theorem Program.ofTokens_eq_ok_iff_derives (ts : List Token) (p : Program) :
    (Program.ofTokens none ts = .ok p ↔ Program.Derives ts p) ∧
      ∀ q, Program.Derives ts p → Program.Derives ts q → p = q := by
  refine ⟨⟨Program.derives_of_ofTokens, Program.Derives.ofTokens⟩, fun q hp hq => ?_⟩
  have := hp.ofTokens.symm.trans hq.ofTokens
  cases this
  rfl

end ScriptToC
