/-
  ScriptToC.Proofs.CursorDiscipline — what every reader does with its cursor, and with the tokens.

  A reader goes forward and stays among the tokens, whether it succeeds or not, and an error is about a token
  that is there, or about the end (`KeepsTo`). Three readers are parts of larger ones and stand for themselves
  here (`MadeOfParts`): the statements of a program up to a token that cannot follow, the names of a parameter
  list without its parenthesis, and a function behind its `def`. Main statement: `readers_keep_to_the_tokens`.
-/

import ScriptToC.Proofs.Failing
import ScriptToC.Proofs.Functions

namespace ScriptToC

open Cursor

/-! ## Parts of readers -/

/-- The statements that follow the first one, up to a token that no separator stands in front of. -/
def Program.readFurther (layout : Option Layout) (c : Cursor) : Except Failure (Program × Cursor) :=
  let separators := c.rest.takeWhile Token.isSeparator
  let next := c.skipWhile Token.isSeparator
  have : next.rest.length ≤ c.rest.length := c.skipWhile_le Token.isSeparator
  if separators.isEmpty || (next.atEnd && !separators.contains (.mark .semicolon)) then return ([], next)
  else do
    let ⟨s, c₁, _⟩ ← Stmt.read layout next
    let (ss, last) ← Program.readFurther layout c₁
    return (s :: ss, last)
termination_by c.rest.length

/-- Statements with separators between them, wherever they end. -/
def Program.readStatements (layout : Option Layout) (c : Cursor) : Except Failure (Program × Cursor) := do
  let ⟨s, c₁, _⟩ ← Stmt.read layout c.skipBreaks
  let (ss, last) ← Program.readFurther layout c₁
  return (s :: ss, last)

/-- A program is read if nothing follows its statements. -/
def Program.requireEnd (r : Program × Cursor) : Except Failure (Program × Cursor) :=
  if r.2.atEnd then .ok r else .error (r.2.fail .separator)

/-- Names with commas between them. -/
def readListed (c : Cursor) : Reading (List String) c := do
  let ⟨x, c₁, h₁⟩ ← c.expectName .parameterName
  match c₁.take? (.mark .comma) with
  | some ⟨_, c₂, h₂⟩ =>
    let ⟨xs, c₃, h₃⟩ ← readListed c₂
    return ⟨x :: xs, c₃, by omega⟩
  | none => return ⟨[x], c₁, h₁⟩
termination_by c.rest.length

/-- The names of a parameter list, in front of the parenthesis that closes it. There may be none. -/
def readNameList (c : Cursor) : Except Failure (List String × Cursor) :=
  if c.rest.head? = some (.mark .closeParen) then return ([], c)
  else do
    let ⟨xs, c₁, _⟩ ← readListed c
    return (xs, c₁)

/-- A function behind its `def`, which `head` is at. -/
def Stmt.readFunction (layout : Option Layout) (head c : Cursor) : Reading Stmt c := do
  let ⟨(name, params), c₁, h₁⟩ ← readHead c
  let start := c₁.skipBreaks
  have h₂ : start.rest.length ≤ c₁.rest.length := c₁.skipBreaks_le
  let sameLine := start.line == c₁.line
  require (sameLine || bodyMayStart layout head start) (start.fail .indentedBody)
  let ⟨body, c₂, h₃⟩ ← Stmt.read layout start
  require (sameLine || bodyMayEnd layout head c₂)
    { error := (c₂.skipBreaks.fail .statementBelowBody).error, stopped := c₂ }
  return ⟨.function name params [body], c₂, Nat.lt_trans (Nat.lt_of_lt_of_le h₃ h₂) h₁⟩

/-- A statement and what follows it. -/
theorem Program.requireEnd_cons {layout : Option Layout} {c : Cursor}
    (hrest : ∀ r : Read Stmt c,
      Program.readRest layout r.next = Program.readFurther layout r.next >>= Program.requireEnd) :
    (do
      let ⟨s, c₁, _⟩ ← Stmt.read layout c
      let (ss, last) ← Program.readRest layout c₁
      return (s :: ss, last) : Except Failure (Program × Cursor)) =
    (do
      let ⟨s, c₁, _⟩ ← Stmt.read layout c
      let (ss, last) ← Program.readFurther layout c₁
      return (s :: ss, last)) >>= Program.requireEnd := by
  cases Stmt.read layout c with
  | error f => rfl
  | ok r =>
    simp only [Except.ok_bind, hrest]
    cases Program.readFurther layout r.next with
    | error f => rfl
    | ok q =>
      simp only [Except.ok_bind, Except.pure_eq_ok, Program.requireEnd]
      split <;> rfl

theorem Program.readRest_eq_readFurther (layout : Option Layout) (c : Cursor) :
    Program.readRest layout c = Program.readFurther layout c >>= Program.requireEnd := by
  induction c using Program.readRest.induct with
  | case1 c =>
    rename_i hdone
    rw [Program.readRest, if_pos hdone, Program.readFurther, if_pos (by rw [hdone, Bool.or_true])]
    rw [Bool.and_eq_true] at hdone
    exact (if_pos hdone.1).symm
  | case2 c =>
    rename_i hdone hempty
    -- Nothing is skipped, so the separator is missing right here.
    have hnone : c.rest.takeWhile Token.isSeparator = [] := List.isEmpty_iff.1 hempty
    have hskip : c.skipWhile Token.isSeparator = c := skipWhile_eq_self hnone
    have hend : c.atEnd = false := by
      have hnot : ¬((c.skipWhile Token.isSeparator).atEnd &&
          !(c.rest.takeWhile Token.isSeparator).contains (.mark .semicolon)) = true := hdone
      simpa [hskip, hnone] using hnot
    rw [Program.readRest, if_neg hdone, if_pos hempty, Program.readFurther, if_pos (by rw [hempty, Bool.true_or])]
    show _ = Program.requireEnd ([], c.skipWhile Token.isSeparator)
    rw [hskip, Program.requireEnd, hend]
    rfl
  | case3 c =>
    rename_i hdone hempty ih
    have hmore : ¬((c.rest.takeWhile Token.isSeparator).isEmpty ||
        ((c.skipWhile Token.isSeparator).atEnd &&
          !(c.rest.takeWhile Token.isSeparator).contains (.mark .semicolon))) = true := by
      rw [Bool.or_eq_true]
      exact fun hor => hor.elim hempty hdone
    rw [Program.readRest, if_neg hdone, if_neg hempty, Program.readFurther, if_neg hmore]
    exact Program.requireEnd_cons fun r => ih r.next r.shorter

theorem Program.read_eq_readStatements (layout : Option Layout) (c : Cursor) :
    Program.read layout c = Program.readStatements layout c >>= Program.requireEnd :=
  Program.requireEnd_cons fun r => Program.readRest_eq_readFurther layout r.next

theorem readNames_eq_readListed (c : Cursor) :
    ((readNames c).map fun r => (r.value, r.next)) = (do
      let ⟨xs, c₁, _⟩ ← readListed c
      let ⟨_, c₂, _⟩ ← c₁.expect (.mark .closeParen) .parameterListEnd
      return (xs, c₂)) := by
  induction c using readNames.induct with
  | case1 c ih =>
    rw [readNames, readListed]
    cases c.expectName .parameterName with
    | error f => rfl
    | ok r =>
      simp only [Except.ok_bind]
      cases hcomma : r.next.take? (.mark .comma) with
      | none =>
        simp only [Except.ok_bind, Except.pure_eq_ok]
        cases r.next.expect (.mark .closeParen) .parameterListEnd <;> rfl
      | some q =>
        have hrest := congrArg (Except.map fun p => (r.value :: p.1, p.2)) (ih r.next r.shorter q.next q.shorter)
        dsimp only
        refine Eq.trans ?_ (hrest.trans ?_)
        · cases readNames q.next <;> rfl
        · cases readListed q.next with
          | error f => rfl
          | ok names =>
            simp only [Except.ok_bind, Except.pure_eq_ok]
            cases names.next.expect (.mark .closeParen) .parameterListEnd <;> rfl

theorem readParameters_eq_readNameList (c : Cursor) :
    ((readParameters c).map fun r => (r.value, r.next)) = (do
      let (xs, c₁) ← readNameList c
      let ⟨_, c₂, _⟩ ← c₁.expect (.mark .closeParen) .parameterListEnd
      return (xs, c₂)) := by
  rw [readParameters, readNameList]
  by_cases hclose : c.rest.head? = some (.mark .closeParen)
  · obtain ⟨d, _, hnext⟩ := next?_of_head? hclose
    have hpasses : c.Passes [.mark .closeParen] d := passes_of_next? hnext
    obtain ⟨_, htake⟩ := hpasses.take?
    obtain ⟨_, hexpect⟩ := hpasses.expect .parameterListEnd
    rw [htake, if_pos hclose]
    simp only [Except.pure_eq_ok, Except.ok_bind, hexpect]
    rfl
  · rw [take?_eq_none hclose, if_neg hclose]
    simp only [readNames_eq_readListed]
    cases readListed c <;> rfl

theorem Stmt.read_eq_readFunction {layout : Option Layout} {c c₁ : Cursor} {h₁ : c₁.rest.length < c.rest.length}
    (h : c.next? = some ⟨.word .defWord, c₁, h₁⟩) :
    Stmt.read layout c =
      (Stmt.readFunction layout c c₁).map fun r => ⟨r.value, r.next, Nat.lt_trans r.shorter h₁⟩ := by
  rw [Stmt.read, Stmt.readFunction]
  simp only [h]
  cases readHead c₁ with
  | error f => rfl
  | ok r =>
    simp only [Except.ok_bind]
    cases require (r.next.skipBreaks.line == r.next.line || bodyMayStart layout c r.next.skipBreaks)
        (r.next.skipBreaks.fail .indentedBody) with
    | error f => rfl
    | ok _ =>
      simp only [Except.ok_bind]
      cases Stmt.read layout r.next.skipBreaks with
      | error f => rfl
      | ok body =>
        simp only [Except.ok_bind]
        cases require (r.next.skipBreaks.line == r.next.line || bodyMayEnd layout c body.next)
          { error := (body.next.skipBreaks.fail .statementBelowBody).error, stopped := body.next } <;> rfl

/-- The parts make up the readers: what has to follow statements and names is looked for behind them, and a
    statement that begins with `def` is a function, which is entered behind that token. -/
structure MadeOfParts (layout : Option Layout) (ts : List Token) (p : Nat) : Prop where
  program : Program.read layout (before ts p) = Program.readStatements layout (before ts p) >>= Program.requireEnd
  parameters : ((readParameters (before ts p)).map fun r => (r.value, r.next)) = (do
    let (xs, c) ← readNameList (before ts p)
    let ⟨_, d, _⟩ ← c.expect (.mark .closeParen) .parameterListEnd
    return (xs, d))
  function : ts[p]? = some (.word .defWord) →
    ((Stmt.read layout (before ts p)).map fun r => (r.value, r.next)) =
      (Stmt.readFunction layout (before ts p) (before ts (p + 1))).map fun r => (r.value, r.next)

theorem madeOfParts (layout : Option Layout) (ts : List Token) (p : Nat) : MadeOfParts layout ts p where
  program := Program.read_eq_readStatements layout (before ts p)
  parameters := readParameters_eq_readNameList (before ts p)
  function hdef := by
    obtain ⟨_, hnext⟩ := next?_before hdef
    rw [Stmt.read_eq_readFunction hnext]
    cases Stmt.readFunction layout (before ts p) (before ts (p + 1)) <;> rfl

/-! ## Where the parts end, and where they fail -/

section

variable {layout : Option Layout} {c c₁ d : Cursor} {f : Failure}

theorem Stmt.passes_of_readFunction {h₁ : c₁.rest.length < c.rest.length}
    (hdef : c.next? = some ⟨.word .defWord, c₁, h₁⟩) {r : Read Stmt c₁}
    (h : Stmt.readFunction layout c c₁ = .ok r) : ∃ us, c₁.Passes us r.next := by
  have hread : Stmt.read layout c = .ok ⟨r.value, r.next, Nat.lt_trans r.shorter h₁⟩ := by
    rw [Stmt.read_eq_readFunction hdef, h]
    rfl
  obtain ⟨us, hus, -⟩ := Stmt.derives_of_read hread
  exact (passes_of_next? hdef).rest_of hus (Nat.lt_trans r.shorter h₁)

theorem Stmt.stopped_of_readFunction {h₁ : c₁.rest.length < c.rest.length}
    (hdef : c.next? = some ⟨.word .defWord, c₁, h₁⟩) (h : Stmt.readFunction layout c c₁ = .error f) : f.Stopped c₁ := by
  have hread : Stmt.read layout c = .error f := by
    rw [Stmt.read_eq_readFunction hdef, h]
    rfl
  exact Stmt.stopped_behind_def hdef (fun _ hbody => Stmt.stopped_of_read hbody) hread

theorem passes_of_readListed {r : Read (List String) c} (h : readListed c = .ok r) :
    ∃ us, c.Passes us r.next := by
  induction c using readListed.induct with
  | case1 c ih =>
    rw [readListed] at h
    obtain ⟨⟨x, c₁, h₁⟩, hname, h⟩ := Except.bind_eq_ok.1 h
    have hp₁ := passes_of_expectName hname
    dsimp only at hp₁ h
    split at h
    · rename_i v c₂ h₂ hcomma
      obtain ⟨⟨xs, c₃, h₃⟩, hxs, h⟩ := Except.bind_eq_ok.1 h
      cases h
      obtain ⟨us, hus⟩ := ih c₁ h₁ c₂ h₂ hxs
      exact ⟨_, hp₁.trans ((passes_of_take? hcomma).trans hus)⟩
    · cases h
      exact ⟨_, hp₁⟩

theorem stopped_of_readListed (h : readListed c = .error f) : f.Stopped c := by
  induction c using readListed.induct with
  | case1 c ih =>
    rw [readListed] at h
    rcases Except.bind_eq_error.1 h with h | ⟨⟨x, c₁, h₁⟩, hname, h⟩
    · obtain ⟨rfl, -⟩ := expectName_error h
      exact .here (.refl c) (by decide)
    · have hp₁ := passes_of_expectName hname
      dsimp only at hp₁ h
      split at h
      · rename_i v c₂ h₂ hcomma
        rcases Except.bind_eq_error.1 h with h | ⟨_, -, h⟩
        · exact (ih c₁ h₁ c₂ h₂ h).behind (hp₁.trans (passes_of_take? hcomma))
        · cases h
      · cases h

theorem passes_of_readNameList {xs : List String} (h : readNameList c = .ok (xs, d)) :
    ∃ us, c.Passes us d := by
  unfold readNameList at h
  split at h
  · cases h
    exact ⟨[], .refl c⟩
  · obtain ⟨⟨xs, c₁, lt⟩, hlisted, h⟩ := Except.bind_eq_ok.1 h
    cases h
    exact passes_of_readListed hlisted

theorem stopped_of_readNameList (h : readNameList c = .error f) : f.Stopped c := by
  unfold readNameList at h
  split at h
  · cases h
  · rcases Except.bind_eq_error.1 h with h | ⟨_, -, h⟩
    · exact stopped_of_readListed h
    · cases h

/-- Further statements are read to a cursor ahead: what follows is the end, or a token that is wrong there. -/
theorem Program.passes_of_readFurther {ss : Program} (h : Program.readFurther layout c = .ok (ss, d)) :
    ∃ us, c.Passes us d := by
  have hrest : Program.readRest layout c = Program.requireEnd (ss, d) := by
    rw [Program.readRest_eq_readFurther, h]
    rfl
  by_cases hend : d.atEnd = true
  · rw [Program.requireEnd, if_pos hend] at hrest
    obtain ⟨us, hus, -⟩ := Program.continues_of_readRest hrest
    exact ⟨us, hus⟩
  · rw [Program.requireEnd, if_neg hend] at hrest
    exact (Program.stopped_of_readRest hrest).passes

theorem Program.passes_of_readStatements {p : Program} (h : Program.readStatements layout c = .ok (p, d)) :
    ∃ us, c.Passes us d ∧ 1 ≤ us.length := by
  obtain ⟨⟨s, c₁, lt⟩, hs, h⟩ := Except.bind_eq_ok.1 h
  obtain ⟨⟨ss, last⟩, hss, h⟩ := Except.bind_eq_ok.1 h
  cases h
  obtain ⟨breaks, -, hskip⟩ := passes_skipBreaks c
  obtain ⟨ts, hts, -⟩ := Stmt.derives_of_read hs
  obtain ⟨us, hus⟩ := Program.passes_of_readFurther hss
  have hlength := hts.one_le_length lt
  refine ⟨breaks ++ (ts ++ us), hskip.trans (hts.trans hus), ?_⟩
  rw [List.length_append, List.length_append]
  omega

theorem Program.stopped_of_readStatements (h : Program.readStatements layout c = .error f) : f.Stopped c := by
  have hread : Program.read layout c = .error f := by
    rw [Program.read_eq_readStatements, h]
    rfl
  exact Program.stopped_of_read hread

theorem Program.passes_of_read {p : Program} (h : Program.read layout c = .ok (p, d)) :
    ∃ us, c.Passes us d ∧ 1 ≤ us.length := by
  rw [Program.read_eq_readStatements] at h
  obtain ⟨r, hr, hend⟩ := Except.bind_eq_ok.1 h
  unfold Program.requireEnd at hend
  split at hend
  · cases hend
    exact Program.passes_of_readStatements hr
  · cases hend

end

/-! ## What an error tells -/

/-- The error is about a token, which its message shows, or about the end of the tokens. Only a token can be
    too deep below a body. -/
structure Unexpected.TellsOf (ts : List Token) (e : Unexpected) : Prop where
  position : e.position ≤ ts.length
  token : ∀ t, ts[e.position]? = some t →
    e.foundText = if e.expected = .statementBelowBody then "indented " ++ t.describe else t.describe
  atEnd : e.foundText = "end of input" ↔ e.position = ts.length
  below : e.expected = .statementBelowBody → e.position < ts.length

theorem Token.describe_ne_end (t : Token) : t.describe ≠ "end of input" := by
  intro h
  have hfirst := congrArg (fun text => text.toList.head?) h
  cases t with
  | number n | name x | arith op | compare op | mark m | word k | newline => simp [Token.describe] at hfirst

theorem Token.indented_ne_end (t : Token) : "indented " ++ t.describe ≠ "end of input" := by
  intro h
  have hfirst := congrArg (fun text => text.toList.head?) h
  simp at hfirst

theorem Unexpected.foundText_eq_end_iff (e : Unexpected) : e.foundText = "end of input" ↔ e.found = none := by
  unfold Unexpected.foundText
  cases e.found with
  | none => simp
  | some t =>
    by_cases hbelow : e.expected = .statementBelowBody
    · simp [hbelow, t.indented_ne_end]
    · simp [hbelow, t.describe_ne_end]

namespace Failure.Stopped

variable {c : Cursor} {f : Failure}

/-- A cursor is left at the token that is wrong, or above it. -/
theorem stopped_le (h : f.Stopped c) : f.stopped.index ≤ f.error.position := by
  cases h with
  | here _ _ => exact Nat.le_refl _
  | below _ _ _ _ =>
    obtain ⟨breaks, -, hskip⟩ := passes_skipBreaks _
    exact hskip.index_le

theorem found_below (h : f.Stopped c) (hbelow : f.error.expected = .statementBelowBody) : f.error.found ≠ none := by
  cases h with
  | here _ hx => exact absurd hbelow hx
  | below _ _ _ hmore => exact fun hnone => hmore (List.head?_eq_none_iff.1 hnone)

end Failure.Stopped

theorem Failure.Stopped.tellsOf {ts : List Token} {p : Nat} (hp : p ≤ ts.length) {f : Failure}
    (h : f.Stopped (before ts p)) : f.error.TellsOf ts := by
  obtain ⟨us, d, hd, hfound, hposition⟩ := h.ahead
  have hle : f.error.position ≤ ts.length := hposition ▸ hd.index_le_length hp
  have hfound : f.error.found = ts[f.error.position]? := by
    rw [hfound, hposition, hd.eq_before, before, List.head?_drop]
  refine ⟨hle, fun t ht => ?_, ?_, fun hbelow => ?_⟩
  · rw [Unexpected.foundText, hfound, ht]
  · rw [Unexpected.foundText_eq_end_iff, hfound, List.getElem?_eq_none_iff]
    omega
  · have hsome := h.found_below hbelow
    rw [hfound] at hsome
    exact Nat.lt_of_not_le fun hend => hsome (List.getElem?_eq_none hend)

/-! ## Every reader -/

/-- What is read from token `p` on ends at a cursor among the tokens, behind `least` of them at least. If it
    fails, the cursor is left ahead too, and the error is about the tokens from there on. -/
structure KeepsTo (ts : List Token) (p least : Nat) (reading : Except Failure Cursor) : Prop where
  ok : ∀ d, reading = .ok d → ∃ q, d = before ts q ∧ p + least ≤ q ∧ q ≤ ts.length
  error : ∀ f, reading = .error f →
    ∃ q, f.stopped = before ts q ∧ p ≤ q ∧ q ≤ f.error.position ∧ f.error.TellsOf ts

theorem KeepsTo.of_passes {ts : List Token} {p least : Nat} (hp : p ≤ ts.length) {α : Type}
    {reading : Except Failure α} {next : α → Cursor}
    (hok : ∀ a, reading = .ok a → ∃ us, (before ts p).Passes us (next a) ∧ least ≤ us.length)
    (herror : ∀ f, reading = .error f → f.Stopped (before ts p)) : KeepsTo ts p least (reading.map next) := by
  cases reading with
  | error f =>
    refine ⟨fun d hd => (nomatch hd), fun g hg => ?_⟩
    cases hg
    have hstopped := herror f rfl
    obtain ⟨us, hus⟩ := hstopped.passes
    exact ⟨f.stopped.index, hus.eq_before, hus.index_le, hstopped.stopped_le, hstopped.tellsOf hp⟩
  | ok a =>
    refine ⟨fun d hd => ?_, fun g hg => (nomatch hg)⟩
    cases hd
    obtain ⟨us, hus, hleast⟩ := hok a rfl
    have hindex : (next a).index = p + us.length := hus.index
    exact ⟨(next a).index, hus.eq_before, by omega, hus.index_le_length hp⟩

/-- What comes with fewer tokens left has taken one. -/
theorem KeepsTo.of_reading {ts : List Token} {p : Nat} (hp : p ≤ ts.length) {α : Type}
    {reading : Reading α (before ts p)} (hok : ∀ r, reading = .ok r → ∃ us, (before ts p).Passes us r.next)
    (herror : ∀ f, reading = .error f → f.Stopped (before ts p)) : KeepsTo ts p 1 (reading.map Read.next) := by
  refine .of_passes hp (fun r hr => ?_) herror
  obtain ⟨us, hus⟩ := hok r hr
  exact ⟨us, hus, hus.one_le_length r.shorter⟩

/-- Readers that begin at any token, or at the end, with any layout. A program, its statements, one statement, an
    expression of any tier and a function behind its `def` take one token at least, and the names of a parameter
    list may be none. A function is only entered behind a `def`, so there is a token in front of it. -/
theorem readers_keep_to_the_tokens (layout : Option Layout) (ts : List Token) {p : Nat} (hp : p ≤ ts.length) :
    KeepsTo ts p 1 ((Program.read layout (before ts p)).map Prod.snd) ∧
      KeepsTo ts p 1 ((Program.readStatements layout (before ts p)).map Prod.snd) ∧
      KeepsTo ts p 1 ((Stmt.read layout (before ts p)).map Read.next) ∧
      (∀ tier, KeepsTo ts p 1 ((Expr.read tier (before ts p)).map Read.next)) ∧
      KeepsTo ts p 0 ((readNameList (before ts p)).map Prod.snd) ∧
      (∀ head, ts[head]? = some (.word .defWord) → p = head + 1 →
        KeepsTo ts p 1 ((Stmt.readFunction layout (before ts head) (before ts p)).map Read.next)) ∧
      MadeOfParts layout ts p := by
  refine ⟨?_, ?_, ?_, fun tier => ?_, ?_, fun head hdef hhead => ?_, madeOfParts layout ts p⟩
  · exact .of_passes hp (fun _ hr => Program.passes_of_read hr) (fun _ hf => Program.stopped_of_read hf)
  · exact .of_passes hp (fun _ hr => Program.passes_of_readStatements hr)
      (fun _ hf => Program.stopped_of_readStatements hf)
  · refine .of_reading hp (fun r hr => ?_) (fun f hf => Stmt.stopped_of_read hf)
    obtain ⟨us, hus, -⟩ := Stmt.derives_of_read hr
    exact ⟨us, hus⟩
  · refine .of_reading hp (fun r hr => ?_) (fun f hf => Expr.stopped_of_read hf)
    obtain ⟨us, hus, -⟩ := Expr.derives_of_read hr
    exact ⟨us, hus⟩
  · refine .of_passes hp (fun r hr => ?_) (fun f hf => stopped_of_readNameList hf)
    obtain ⟨us, hus⟩ := passes_of_readNameList hr
    exact ⟨us, hus, Nat.zero_le _⟩
  · subst hhead
    obtain ⟨_, hnext⟩ := next?_before hdef
    exact .of_reading hp (fun r hr => Stmt.passes_of_readFunction hnext hr)
      (fun f hf => Stmt.stopped_of_readFunction hnext hf)

/-- The parameters of a function are read from inside, and the function from behind its `def`. -/
theorem readers_keep_to_a_function :
    let ts : List Token := .word .defWord :: signatureTokens "f" ["a", "b"] ++ [.newline, .name "a"]
    3 ≤ ts.length ∧ KeepsTo ts 3 0 ((readNameList (before ts 3)).map Prod.snd) ∧
      KeepsTo ts 1 1 ((Stmt.readFunction none (before ts 0) (before ts 1)).map Read.next) := by
  intro ts
  have hinside : 3 ≤ ts.length := by decide
  have hbehind : 1 ≤ ts.length := by decide
  obtain ⟨-, -, -, -, hnames, -⟩ := readers_keep_to_the_tokens none ts hinside
  obtain ⟨-, -, -, -, -, hfunction, -⟩ := readers_keep_to_the_tokens none ts hbehind
  exact ⟨hinside, hnames, hfunction 0 rfl rfl⟩

end ScriptToC
