/-
  ScriptToC.Proofs.Joining — two scripts with a line break between them are one script: first the statements
  of the one, then those of the other (`compile_joined`).

  A function that ends the first script can take its body from lines of their own. Then the first line of the
  second script that is not blank must not be deeper than its `def`, or it could be meant for the body, and
  the whole is rejected for the first token there. The code of the second script changes where it declares a
  name that the first one has assigned to: `Code.ofProgram_append`.
-/

import ScriptToC.Proofs.BrokenRules
import ScriptToC.Proofs.DeclareOnce
import ScriptToC.Proofs.JoinedTokens
import ScriptToC.Proofs.Shape

namespace ScriptToC

open Cursor

/-! ## Programs -/

section

variable {ts us : List Token} {ss p q : Program}

theorem Program.Continues.join (h : Program.Continues us ss) (hq : Program.Derives ts q) :
    Program.Continues (us ++ .newline :: ts) (ss ++ q) := by
  induction h with
  | @done breaks hbreaks =>
    cases hq with
    | @start breaks' _ _ _ _ hbreaks' hs hrest =>
      have hseps : ∀ t ∈ breaks ++ .newline :: breaks', t.isSeparator = true := by
        intro t ht
        have hnewline : t = .newline := by
          rcases List.mem_append.1 ht with ht | ht
          · exact hbreaks t ht
          · rcases List.mem_cons.1 ht with ht | ht
            · exact ht
            · exact hbreaks' t ht
        rw [hnewline]
        rfl
      simpa using Program.Continues.next (by simp) hseps hs hrest
  | next hne hseps hs _ ih => simpa using Program.Continues.next hne hseps hs ih

/-- A line break separates two programs. -/
theorem Program.Derives.join (hp : Program.Derives us p) (hq : Program.Derives ts q) :
    Program.Derives (us ++ .newline :: ts) (p ++ q) := by
  cases hp with
  | start hbreaks hs hrest => simpa using Program.Derives.start hbreaks hs (hrest.join hq)

theorem Program.Derives.not_breaks (h : Program.Derives ts p) : ¬∀ t ∈ ts, t = .newline := by
  intro hall
  cases h with
  | start _ hs _ =>
    obtain ⟨t, us, rfl, ht⟩ := hs.begins
    rw [hall t (by simp)] at ht
    cases ht

end

/-! ## Functions -/

section

variable {l m : Lexed} {p q : Program} {head start stop : Nat}

/-- A function among all tokens is one of the first part or one of the second. -/
theorem FunctionAt.of_join (hfun : FunctionAt (l.join m).tokens head start stop) (hp : Program.Derives l.tokens p)
    (hq : Program.Derives m.tokens q) :
    FunctionAt l.tokens head start stop ∨
      ∃ head' start' stop', FunctionAt m.tokens head' start' stop' ∧ head = l.front.length + head' ∧
        start = l.front.length + start' ∧ stop = l.front.length + stop' := by
  have hdef := hfun.head
  have hlength := l.length_front
  by_cases hlt : head < l.tokens.length
  · rw [Lexed.join, List.getElem?_append_left hlt] at hdef
    obtain ⟨start', stop', hfun'⟩ := hp.functionAt hdef
    obtain ⟨rfl, rfl⟩ := hfun.unique (hfun'.join_left m)
    exact .inl hfun'
  · by_cases hbreak : head = l.tokens.length
    · subst hbreak
      simp [Lexed.join] at hdef
    · obtain ⟨head', rfl⟩ : ∃ head', head = l.front.length + head' := Nat.exists_eq_add_of_le (by omega)
      rw [Lexed.tokens_join, List.getElem?_append_right (Nat.le_add_right _ _), Nat.add_sub_cancel_left] at hdef
      obtain ⟨start', stop', hfun'⟩ := hq.functionAt hdef
      obtain ⟨rfl, rfl⟩ := hfun.unique (hfun'.join_right l)
      exact .inr ⟨head', start', stop', hfun', rfl, rfl, rfl⟩

theorem laidOut_of_ofTokens {layout : Option Layout} {ts : List Token} (h : Program.ofTokens layout ts = .ok p)
    (hfun : FunctionAt ts head start stop) : LaidOut layout (before ts head) (before ts start) (before ts stop) := by
  obtain ⟨start', stop', hfun', hlaid⟩ := (Program.ofTokens_eq_ok_iff_laidOut.1 h).2 head hfun.head
  obtain ⟨rfl, rfl⟩ := hfun.unique hfun'
  exact hlaid

/-- A function that ends the first part and keeps the rules there keeps them among all tokens if its body is
    on its line, or if it is not above something deeper. -/
theorem FunctionAt.laidOut_join_tail_iff (h : l.Complete) (hfun : FunctionAt l.tokens head start stop)
    (hbreaks : ∀ t ∈ l.tokens.drop stop, t = .newline) (hmore : behindBreaks m.tokens 0 < m.tokens.length)
    (hlaid : LaidOut (some l.layout) (before l.tokens head) (before l.tokens start) (before l.tokens stop)) :
    LaidOut (some (l.join m).layout) (before (l.join m).tokens head) (before (l.join m).tokens start)
        (before (l.join m).tokens stop) ↔
      ((before l.tokens start).line ≠ (before l.tokens head).line →
        depthAt m.layout m.tokens (behindBreaks m.tokens 0) ≤ depthAt l.layout l.tokens head) := by
  have hlt := hfun.lt
  rw [LaidOut, hfun.bodyMayStart_join_left h, hfun.bodyMayEnd_join_iff h hbreaks hmore,
    Lexed.join_left_line m (by omega), Lexed.join_left_line m (by omega)]
  rcases hlaid with hline | ⟨hstart, -⟩
  · simp [hline]
  · simp only [hstart, true_and]
    exact Decidable.or_iff_not_imp_left

/-- Only a function that ends the first part can break a rule among all tokens and keep it before. -/
theorem FunctionAt.laidOut_or_tail (hl : l.Complete) (hp : Program.ofTokens (some l.layout) l.tokens = .ok p)
    (hq : Program.ofTokens (some m.layout) m.tokens = .ok q) (hfun : FunctionAt (l.join m).tokens head start stop) :
    LaidOut (some (l.join m).layout) (before (l.join m).tokens head) (before (l.join m).tokens start)
        (before (l.join m).tokens stop) ∨
      (FunctionAt l.tokens head start stop ∧ ∀ t ∈ l.tokens.drop stop, t = .newline) := by
  rcases hfun.of_join (Program.derives_of_ofTokens hp) (Program.derives_of_ofTokens hq) with
    hleft | ⟨head, start, stop, hright, rfl, rfl, rfl⟩
  · by_cases hbreaks : ∀ t ∈ l.tokens.drop stop, t = .newline
    · exact .inr ⟨hleft, hbreaks⟩
    · exact .inl ((hleft.laidOut_join_left_iff hl hbreaks m).2 (laidOut_of_ofTokens hp hleft))
  · exact .inl ((hright.laidOut_join_right_iff hl).2 (laidOut_of_ofTokens hq hright))

/-- All functions that end the first part are above nothing deeper. -/
def NothingDeeperBehind (l m : Lexed) (p : Program) : Prop :=
  ∀ head start, p.TailFunction l.tokens head start → (before l.tokens start).line ≠ (before l.tokens head).line →
    depthAt m.layout m.tokens (behindBreaks m.tokens 0) ≤ depthAt l.layout l.tokens head

theorem nothingDeeperBehind_iff (hl : l.Complete) (hp : Program.ofTokens (some l.layout) l.tokens = .ok p)
    (hq : Program.ofTokens (some m.layout) m.tokens = .ok q) :
    NothingDeeperBehind l m p ↔
      ∀ head start stop, FunctionAt (l.join m).tokens head start stop →
        LaidOut (some (l.join m).layout) (before (l.join m).tokens head) (before (l.join m).tokens start)
          (before (l.join m).tokens stop) := by
  have hd := Program.derives_of_ofTokens hp
  have hmore : behindBreaks m.tokens 0 < m.tokens.length :=
    behindBreaks_lt (Program.derives_of_ofTokens hq).not_breaks
  constructor
  · intro h head start stop hfun
    rcases hfun.laidOut_or_tail hl hp hq with hlaid | ⟨hleft, hbreaks⟩
    · exact hlaid
    · have htail := (hd.tailFunction_iff hleft).2 hbreaks
      exact (hleft.laidOut_join_tail_iff hl hbreaks hmore (laidOut_of_ofTokens hp hleft)).2 (h head start htail)
  · intro h head start htail
    obtain ⟨i, s, -, hlast, htail⟩ := htail
    obtain ⟨stop, hfun, hbreaks⟩ := htail.functionAt hlast
    exact (hfun.laidOut_join_tail_iff hl hbreaks hmore (laidOut_of_ofTokens hp hfun)).1
      (h head start stop (hfun.join_left m))

/-- The whole is read as both programs if nothing deeper follows the first one. -/
theorem ofTokens_join_ok (hl : l.Complete) (hp : Program.ofTokens (some l.layout) l.tokens = .ok p)
    (hq : Program.ofTokens (some m.layout) m.tokens = .ok q) (h : NothingDeeperBehind l m p) :
    Program.ofTokens (some (l.join m).layout) (l.join m).tokens = .ok (p ++ q) := by
  have hjoined := (Program.derives_of_ofTokens hp).join (Program.derives_of_ofTokens hq)
  refine Program.ofTokens_eq_ok_iff_laidOut.2 ⟨hjoined, fun head hdef => ?_⟩
  obtain ⟨start, stop, hfun⟩ := hjoined.functionAt hdef
  exact ⟨start, stop, hfun, (nothingDeeperBehind_iff hl hp hq).1 h head start stop hfun⟩

theorem LaidOut.not_broken {layout : Option Layout} {c d e : Cursor} (h : LaidOut layout c d e) (hline : d.line ≠ c.line) :
    bodyMayStart layout c d = true ∧ bodyMayEnd layout c e = true := by
  rcases h with h | h
  · exact absurd h hline
  · exact h

/-- The rule that is broken is that of the next line, by a function that ends the first part. -/
theorem RuleBroken.join {e : Unexpected} (hl : l.Complete) (hp : Program.ofTokens (some l.layout) l.tokens = .ok p)
    (hq : Program.ofTokens (some m.layout) m.tokens = .ok q)
    (h : RuleBroken (some (l.join m).layout) (l.join m).tokens e) :
    e = ⟨.statementBelowBody, m.tokens[behindBreaks m.tokens 0]?, l.front.length + behindBreaks m.tokens 0⟩ := by
  cases h with
  | @start head start stop hfun hline hnot =>
    have hmay : bodyMayStart (some (l.join m).layout) (before (l.join m).tokens head) (before (l.join m).tokens start) =
        true := by
      rcases hfun.laidOut_or_tail hl hp hq with hlaid | ⟨hleft, -⟩
      · exact (hlaid.not_broken hline).1
      · have hlt := hleft.lt
        rw [Lexed.join_left_line m (by omega), Lexed.join_left_line m (by omega)] at hline
        exact (hleft.bodyMayStart_join_left hl m).2 ((laidOut_of_ofTokens hp hleft).not_broken hline).1
    rw [hmay] at hnot
    cases hnot
  | stop hfun hline hnot =>
    rcases hfun.laidOut_or_tail hl hp hq with hlaid | ⟨hleft, hbreaks⟩
    · rw [(hlaid.not_broken hline).2] at hnot
      cases hnot
    · rw [hleft.behindBreaks_join hbreaks, fail, Lexed.tokens_join, before_front_rest]
      show Unexpected.mk _ (m.tokens.drop _).head? _ = _
      rw [List.head?_drop]
      rfl

/-- Otherwise it is rejected for the first token of the second part that is no line break. -/
theorem ofTokens_join_error (hl : l.Complete) (hp : Program.ofTokens (some l.layout) l.tokens = .ok p)
    (hq : Program.ofTokens (some m.layout) m.tokens = .ok q) (h : ¬NothingDeeperBehind l m p) :
    Program.ofTokens (some (l.join m).layout) (l.join m).tokens =
      .error ⟨.statementBelowBody, m.tokens[behindBreaks m.tokens 0]?, l.front.length + behindBreaks m.tokens 0⟩ := by
  cases hresult : Program.ofTokens (some (l.join m).layout) (l.join m).tokens with
  | ok r => exact absurd ((nothingDeeperBehind_iff hl hp hq).2 fun _ _ _ => laidOut_of_ofTokens hresult) h
  | error e =>
    have hjoined := (Program.derives_of_ofTokens hp).join (Program.derives_of_ofTokens hq)
    rw [(Program.ruleBroken_of_ofTokens hjoined hresult).join hl hp hq]

end

/-! ## Code -/

/-- A statement where names are known already: one that declares such a name assigns to it instead. -/
def CStmt.undeclared (known : List String) : CStmt → CStmt
  | .declare x e => if x ∈ known then .assign x e else .declare x e
  | s => s

/-- The text without `int `. -/
theorem CStmt.text_undeclared {known : List String} {x : String} (h : x ∈ known) (e : Expr) :
    (CStmt.declare x e).text = "int " ++ (CStmt.undeclared known (.declare x e)).text := by
  rw [undeclared, if_pos h, CStmt.text, CStmt.text]
  simp [String.append_assoc]

theorem CStmt.ofStmt_undeclared {known more : Declared} {names : List String}
    (h : ∀ x, more.has x = true ↔ known.has x = true ∨ x ∈ names) (s : Stmt) :
    (CStmt.ofStmt more s).1 = CStmt.undeclared names (CStmt.ofStmt known s).1 := by
  cases s with
  | assign x e =>
    by_cases hknown : known.has x = true
    · simp [CStmt.ofStmt, (h x).2 (.inl hknown), hknown, CStmt.undeclared]
    · by_cases hname : x ∈ names
      · simp [CStmt.ofStmt, (h x).2 (.inr hname), hknown, hname, CStmt.undeclared]
      · have hmore : ¬more.has x = true := fun hmore => ((h x).1 hmore).elim hknown hname
        simp [CStmt.ofStmt, hmore, hknown, hname, CStmt.undeclared]
  | ret e | function f params body | expr e => rfl

theorem CStmt.ofStmts_undeclared {known more : Declared} {names : List String}
    (h : ∀ x, more.has x = true ↔ known.has x = true ∨ x ∈ names) (ss : List Stmt) :
    (CStmt.ofStmts more ss).1 = (CStmt.ofStmts known ss).1.map (CStmt.undeclared names) := by
  induction ss generalizing known more with
  | nil => rfl
  | cons s ss ih =>
    have hstep : ∀ x, (CStmt.ofStmt more s).2.has x = true ↔ (CStmt.ofStmt known s).2.has x = true ∨ x ∈ names := by
      intro x
      rw [has_ofStmt, has_ofStmt, h x, or_right_comm]
    rw [CStmt.ofStmts, CStmt.ofStmts]
    dsimp only
    rw [List.map_cons, CStmt.ofStmt_undeclared h, ih hstep]

/-- What the first program assigns to is known to the second one. -/
theorem Code.ofProgram_append (p q : Program) :
    Code.ofProgram (p ++ q) = Code.ofProgram p ++ (Code.ofProgram q).map (CStmt.undeclared (Stmt.targets p)) := by
  have hknown : ∀ x, (CStmt.ofStmts Declared.empty p).2.has x = true ↔
      Declared.empty.has x = true ∨ x ∈ Stmt.targets p := by
    intro x
    rw [(Knows.start Declared.empty).steps p x]
    simp [show Declared.empty.names = [] from rfl]
  rw [Code.ofProgram, CStmt.ofStmts_append]
  dsimp only
  rw [CStmt.ofStmts_undeclared hknown]
  rfl

theorem mem_targets_of_declare {known : Declared} {ss : List Stmt} {x : String} {e : Expr}
    (h : .declare x e ∈ (CStmt.ofStmts known ss).1) : x ∈ Stmt.targets ss := by
  induction ss generalizing known with
  | nil => cases h
  | cons s ss ih =>
    rw [CStmt.ofStmts] at h
    rcases List.mem_cons.1 h with h | h
    · cases s with
      | assign y f =>
        rw [CStmt.ofStmt] at h
        split at h
        · cases h
        · cases h
          simp [Stmt.targets, Stmt.target?]
      | ret f | function f params body | expr f => cases h
    · have hmem := ih h
      rw [Stmt.targets, List.mem_filterMap] at hmem ⊢
      obtain ⟨s', hs', hx⟩ := hmem
      exact ⟨s', List.mem_cons_of_mem s hs', hx⟩

/-- Nothing changes for a program that assigns to other names. -/
theorem Code.undeclared_of_disjoint {p q : Program} (h : ∀ x ∈ Stmt.targets p, x ∉ Stmt.targets q) :
    (Code.ofProgram q).map (CStmt.undeclared (Stmt.targets p)) = Code.ofProgram q := by
  have hsame : ∀ s ∈ Code.ofProgram q, CStmt.undeclared (Stmt.targets p) s = s := by
    intro s hs
    cases s with
    | declare x e => exact if_neg fun hx => h x hx (mem_targets_of_declare hs)
    | assign x e | ret e | function f params body | expr e => rfl
  rw [List.map_congr_left hsame, List.map_id']

theorem CStmt.length_ofStmts (known : Declared) (ss : List Stmt) : (CStmt.ofStmts known ss).1.length = ss.length := by
  induction ss generalizing known with
  | nil => rfl
  | cons s ss ih => simp [CStmt.ofStmts, ih]

theorem Code.ofProgram_ne_nil {p : Program} (h : p ≠ []) : Code.ofProgram p ≠ [] := by
  rw [ne_eq, ← List.length_eq_zero_iff, Code.ofProgram, CStmt.length_ofStmts, List.length_eq_zero_iff]
  exact h

theorem Code.text_append {c d : Code} (hc : c ≠ []) (hd : d ≠ []) : Code.text (c ++ d) = c.text ++ " " ++ d.text := by
  simp only [Code.text, CStmt.texts_eq_map, List.map_append]
  exact String.intercalate_append_of_ne_nil (by simpa using hc) (by simpa using hd)

theorem Code.text_ofProgram_append {p q : Program} (hp : p ≠ []) (hq : q ≠ []) :
    (Code.ofProgram (p ++ q)).text =
      (Code.ofProgram p).text ++ " " ++ Code.text ((Code.ofProgram q).map (CStmt.undeclared (Stmt.targets p))) := by
  rw [Code.ofProgram_append, Code.text_append (Code.ofProgram_ne_nil hp)]
  simpa using Code.ofProgram_ne_nil hq

/-! ## Scripts -/

variable {first second : String} {l m : Lexed} {p q : Program}

theorem compile_error {script : String} {lexed : Lexed} {e : Unexpected} (hlex : Lexed.ofString script = .ok lexed)
    (h : Program.ofTokens (some lexed.layout) lexed.tokens = .error e) :
    (compile script).result = .error (.token e) := by
  simp [compile, hlex, h]

/-- The first token of the second script that is no line break stands no deeper than any function that ends
    the first script and has its body on lines below. -/
def MayFollow (first second : String) (l m : Lexed) (p : Program) : Prop :=
  ∀ head start, p.TailFunction l.tokens head start → lineOf first head < lineOf first start →
    indentation second (lineOf second (behindBreaks m.tokens 0)) ≤ indentation first (lineOf first head)

theorem mayFollow_iff (hl : Lexed.ofString first = .ok l) (hm : Lexed.ofString second = .ok m)
    (hmore : behindBreaks m.tokens 0 < m.tokens.length) :
    MayFollow first second l m p ↔ NothingDeeperBehind l m p := by
  refine forall₃_congr fun head start htail => ?_
  obtain ⟨i, s, -, hlast, htail⟩ := htail
  obtain ⟨stop, hfun, -⟩ := htail.functionAt hlast
  obtain ⟨hlt, hlt', hlength⟩ := hfun.lt
  have hmono := before_line_mono l.tokens (Nat.le_of_lt hlt)
  have hline : (before l.tokens head).line + 1 < (before l.tokens start).line + 1 ↔
      (before l.tokens start).line ≠ (before l.tokens head).line := by omega
  rw [lineOf_eq_before hl (show start < _ by omega), indentation_lineOf hm hmore,
    indentation_lineOf hl (show head < _ by omega), lineOf_eq_before hl (show head < _ by omega), hline]
  rfl

/-- Two scripts that are accepted, with a line break between them. If the second one may follow, the whole is
    the statements of the first and then those of the second. Its code is that of the first, a space and that
    of the second, where the names that the first one assigns to are not declared again. If it may not, the
    whole is rejected for the first token of the second script that is no line break. -/
theorem compile_joined (hl : Lexed.ofString first = .ok l) (hp : Program.ofTokens (some l.layout) l.tokens = .ok p)
    (hm : Lexed.ofString second = .ok m) (hq : Program.ofTokens (some m.layout) m.tokens = .ok q) :
    let next := behindBreaks m.tokens 0
    let script := first ++ "\n" ++ second
    ((compile first).result = .ok (Code.ofProgram p).text ∧ (compile second).result = .ok (Code.ofProgram q).text) ∧
      (MayFollow first second l m p → ReadsAs script (p ++ q) ∧
        (compile script).result = .ok ((Code.ofProgram p).text ++ " " ++
          Code.text ((Code.ofProgram q).map (CStmt.undeclared (Stmt.targets p)))) ∧
        ((∀ x ∈ Stmt.targets p, x ∉ Stmt.targets q) →
          (compile script).result = .ok ((Code.ofProgram p).text ++ " " ++ (Code.ofProgram q).text))) ∧
      (¬MayFollow first second l m p → (compile script).result =
        .error (.token ⟨.statementBelowBody, m.tokens[next]?, l.tokens.length + 1 + next⟩)) := by
  intro next script
  have hdp := Program.derives_of_ofTokens hp
  have hdq := Program.derives_of_ofTokens hq
  have hjoin : Lexed.ofString script = .ok (l.join m) := Lexed.ofString_join hl hm
  have hcomplete := Lexed.complete_of_ofString hl
  have hiff : MayFollow first second l m p ↔ NothingDeeperBehind l m p :=
    mayFollow_iff hl hm (behindBreaks_lt hdq.not_breaks)
  refine ⟨⟨compile_result_eq_ok.2 ⟨l, p, hl, hp, rfl⟩, compile_result_eq_ok.2 ⟨m, q, hm, hq, rfl⟩⟩, ?_, ?_⟩
  · intro hmay
    have hreads : ReadsAs script (p ++ q) := ⟨l.join m, hjoin, ofTokens_join_ok hcomplete hp hq (hiff.1 hmay)⟩
    have htext : (compile script).result = .ok ((Code.ofProgram p).text ++ " " ++
        Code.text ((Code.ofProgram q).map (CStmt.undeclared (Stmt.targets p)))) :=
      compile_eq_ok_iff_readsAs.2 ⟨p ++ q, hreads, (Code.text_ofProgram_append hdp.ne_nil hdq.ne_nil).symm⟩
    refine ⟨hreads, htext, fun hdisjoint => ?_⟩
    rw [htext, Code.undeclared_of_disjoint hdisjoint]
  · intro hmay
    have herror := ofTokens_join_error hcomplete hp hq (mt hiff.2 hmay)
    rw [Lexed.length_front] at herror
    exact compile_error hjoin herror

/-- A function with its body below, a blank line, and statements that assign to a name again. -/
theorem compile_joined_behind_a_function :
    (compile ("x = 1\ndef f():\n  x" ++ "\n" ++ "\nx = 2; y = x")).result =
      .ok "int x = 1; int f() \x7b x; \x7d; x = 2; int y = x;" := by
  let l : Lexed :=
    ⟨[.name "x", .mark .assign, .number 1, .newline, .word .defWord, .name "f", .mark .openParen, .mark .closeParen,
      .mark .colon, .newline, .name "x"], ⟨[0, 0, 2]⟩⟩
  let m : Lexed :=
    ⟨[.newline, .name "x", .mark .assign, .number 2, .mark .semicolon, .name "y", .mark .assign, .name "x"], ⟨[0, 0]⟩⟩
  let p : Program := [.assign "x" (.number 1), .function "f" [] [.expr (.name "x")]]
  let q : Program := [.assign "x" (.number 2), .assign "y" (.name "x")]
  have hl : Lexed.ofString "x = 1\ndef f():\n  x" = .ok l := by decide +kernel
  have hp : Program.ofTokens (some l.layout) l.tokens = .ok p := by decide +kernel
  have hm : Lexed.ofString "\nx = 2; y = x" = .ok m := by decide +kernel
  have hq : Program.ofTokens (some m.layout) m.tokens = .ok q := by decide +kernel
  have hmay : MayFollow "x = 1\ndef f():\n  x" "\nx = 2; y = x" l m p := by
    intro head start _ _
    rw [indentation_lineOf hm (by decide)]
    exact Nat.zero_le _
  have htext := ((compile_joined hl hp hm hq).2.1 hmay).2.1
  rw [htext]
  decide +kernel

/-- The first token of the second script is a line break, and the line where it stands is not deeper than the
    function. Those that follow it are passed over, and the first other token is deeper. -/
theorem a_blank_line_is_passed_over :
    let first := "def f():\n 1"
    let second := "\n  x"
    ((compile first).result = .ok "int f() \x7b 1; \x7d;" ∧ (compile second).result = .ok "x;") ∧
      (∃ l m p, Lexed.ofString first = .ok l ∧ Program.ofTokens (some l.layout) l.tokens = .ok p ∧
        Lexed.ofString second = .ok m ∧ m.tokens[0]? = some .newline ∧
        ∀ head start, p.TailFunction l.tokens head start → lineOf first head < lineOf first start →
          indentation second (lineOf second 0) ≤ indentation first (lineOf first head)) ∧
      (compile (first ++ "\n" ++ second)).result = .error (.token ⟨.statementBelowBody, some (.name "x"), 9⟩) := by
  intro first second
  let l : Lexed :=
    ⟨[.word .defWord, .name "f", .mark .openParen, .mark .closeParen, .mark .colon, .newline, .number 1], ⟨[0, 1]⟩⟩
  let m : Lexed := ⟨[.newline, .name "x"], ⟨[0, 2]⟩⟩
  have hl : Lexed.ofString first = .ok l := by decide +kernel
  have hp : Program.ofTokens (some l.layout) l.tokens = .ok [.function "f" [] [.expr (.number 1)]] := by
    decide +kernel
  have hm : Lexed.ofString second = .ok m := by decide +kernel
  refine ⟨by decide +kernel, ⟨l, m, _, hl, hp, hm, rfl, fun head start _ _ => ?_⟩, by decide +kernel⟩
  rw [indentation_lineOf hm (by decide)]
  exact Nat.zero_le _

end ScriptToC
