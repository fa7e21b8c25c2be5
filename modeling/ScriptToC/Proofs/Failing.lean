/-
  ScriptToC.Proofs.Failing — where reading fails, and where it leaves the cursor.

  An error is about a token that lies ahead of where reading began, or about the end of the tokens
  (`Failure.Ahead`). The cursor is left at that token, but for a line below a body that is too deep: that
  token is looked at from the end of the body, and nothing there is taken (`Failure.Stopped`). This holds
  of every reader, with a layout and without one.
-/

import ScriptToC.Proofs.StuckPrograms

namespace ScriptToC

open Cursor

/-- The error is about the token at a cursor ahead of `c`. -/
def Failure.Ahead (c : Cursor) (f : Failure) : Prop :=
  ∃ ts d, c.Passes ts d ∧ f.error.found = d.rest.head? ∧ f.error.position = d.index

/-- What is read from `c` on fails ahead of it, if it fails. -/
def FailsAhead (c : Cursor) {α : Type} (reading : Except Failure α) : Prop := ∀ f, reading = .error f → f.Ahead c

theorem Failure.Ahead.index_le {c : Cursor} {f : Failure} (h : f.Ahead c) : c.index ≤ f.error.position := by
  rcases h with ⟨ts, d, hp, -, hposition⟩
  rw [hposition, hp.index]
  omega

namespace FailsAhead

variable {α β : Type} {c d : Cursor} {ts : List Token}

theorem ok (c : Cursor) (a : α) : FailsAhead c (.ok a : Except Failure α) := by
  intro f hf
  cases hf

theorem behind (hp : c.Passes ts d) {reading : Except Failure α} (h : FailsAhead d reading) : FailsAhead c reading := by
  intro f hf
  obtain ⟨us, e, hp', hfound, hposition⟩ := h f hf
  exact ⟨ts ++ us, e, hp.trans hp', hfound, hposition⟩

theorem bind {x : Except Failure α} {k : α → Except Failure β} (hx : FailsAhead c x)
    (hk : ∀ a, x = .ok a → FailsAhead c (k a)) : FailsAhead c (x >>= k) := by
  cases x with
  | error f =>
    intro g hg
    cases hg
    exact hx f rfl
  | ok a => exact hk a rfl

end FailsAhead

/-! ## The cursor that is left -/

/-- Reading that began at `c` has stopped. -/
inductive Failure.Stopped (c : Cursor) : Failure → Prop
  /-- At the token that is wrong. -/
  | here {ts : List Token} {d : Cursor} {x : Expectation} : c.Passes ts d → x ≠ .statementBelowBody →
      Stopped c (d.fail x)
  /-- Behind the last token of a body, in front of the line breaks above the token that is wrong. -/
  | below {ts : List Token} {t : Token} {d : Cursor} : c.Passes (ts ++ [t]) d → t ≠ .newline →
      d.rest.head? = some .newline → d.skipBreaks.rest ≠ [] →
      Stopped c ⟨(d.skipBreaks.fail .statementBelowBody).error, d⟩

namespace Failure.Stopped

variable {c d : Cursor} {ts : List Token} {f : Failure}

theorem behind (hp : c.Passes ts d) (h : f.Stopped d) : f.Stopped c := by
  cases h with
  | here hp' hx => exact .here (hp.trans hp') hx
  | below hp' ht hnext hmore =>
    have hp' := hp.trans hp'
    rw [← List.append_assoc] at hp'
    exact .below hp' ht hnext hmore

theorem passes (h : f.Stopped c) : ∃ ts, c.Passes ts f.stopped := by
  cases h with
  | here hp _ => exact ⟨_, hp⟩
  | below hp _ _ _ => exact ⟨_, hp⟩

theorem ahead (h : f.Stopped c) : f.Ahead c := by
  cases h with
  | here hp _ => exact ⟨_, _, hp, rfl, rfl⟩
  | below hp _ _ _ =>
    obtain ⟨breaks, -, hskip⟩ := passes_skipBreaks _
    exact ⟨_, _, hp.trans hskip, rfl, rfl⟩

end Failure.Stopped

/-! ## Expressions and signatures -/

theorem Expr.Stuck.expected {p : Expr.Phrase} {ts : List Token} {next : Option Token} {x : Expectation}
    (h : Expr.Stuck p ts next x) : x ≠ .statementBelowBody := by
  induction h with
  | atom _ | unclosed _ _ | noElse _ _ _ => decide
  | inside _ ih | first _ _ ih | chain _ _ _ ih | operand _ _ ih | operation _ _ _ ih | compare _ _ ih
  | condition _ _ ih | otherwise _ _ _ ih => exact ih

theorem NamesStuck.expected {ts : List Token} {next : Option Token} {x : Expectation} (h : NamesStuck ts next x) :
    x ≠ .statementBelowBody := by
  induction h with
  | name _ | close _ _ => decide
  | comma _ ih => exact ih

theorem HeadStuck.expected {ts : List Token} {next : Option Token} {x : Expectation} (h : HeadStuck ts next x) :
    x ≠ .statementBelowBody := by
  cases h with
  | name _ | openParen _ | colon _ => decide
  | names _ hs => exact hs.expected

variable {layout : Option Layout} {c : Cursor} {f : Failure}

theorem Expr.stopped_of_read {tier : Tier} (h : Expr.read tier c = .error f) : f.Stopped c := by
  have houtcome := Expr.outcome tier c
  rw [h] at houtcome
  cases houtcome with
  | stuck hp hs => exact .here hp hs.expected

theorem stopped_of_readHead (h : readHead c = .error f) : f.Stopped c := by
  obtain ⟨ts, d, x, hp, rfl, hs⟩ := readHead_error h
  exact .here hp hs.expected

/-! ## Statements and programs -/

theorem require_eq_error {kept : Bool} {failure : Failure} :
    require kept failure = .error f ↔ kept = false ∧ f = failure := by
  cases kept <;> simp [require, eq_comm]

/-- Where reading a function fails: at the first rule, in the body, or at the second rule. -/
theorem Stmt.read_function_error {colon : Cursor} {name : String} {params : List String}
    (hp : c.Passes (.word .defWord :: signatureTokens name params) colon) (h : Stmt.read layout c = .error f) :
    (colon.skipBreaks.line ≠ c.line ∧ bodyMayStart layout c colon.skipBreaks = false ∧
        f = colon.skipBreaks.fail .indentedBody) ∨
      Stmt.read layout colon.skipBreaks = .error f ∨
      ∃ body stop, (Stmt.read layout colon.skipBreaks).Gives body stop ∧ colon.skipBreaks.line ≠ c.line ∧
        bodyMayEnd layout c stop = false ∧ f = ⟨(stop.skipBreaks.fail .statementBelowBody).error, stop⟩ := by
  have hcolon := hp.line_signature
  obtain ⟨c₁, hdef, hsig⟩ := hp.uncons
  obtain ⟨_, hdef⟩ := hdef.next?
  obtain ⟨_, hhead⟩ := hsig.readHead
  rw [← hcolon]
  rw [Stmt.read] at h
  simp only [hdef, hhead, Except.ok_bind] at h
  rcases Except.bind_eq_error.1 h with h | ⟨_, -, h⟩
  · obtain ⟨hnot, rfl⟩ := require_eq_error.1 h
    rw [Bool.or_eq_false_iff, beq_eq_false_iff_ne] at hnot
    exact .inl ⟨hnot.1, hnot.2, rfl⟩
  · rcases Except.bind_eq_error.1 h with h | ⟨⟨body, stop, lt⟩, hbody, h⟩
    · exact .inr (.inl h)
    · rcases Except.bind_eq_error.1 h with h | ⟨_, -, h⟩
      · obtain ⟨hnot, rfl⟩ := require_eq_error.1 h
        rw [Bool.or_eq_false_iff, beq_eq_false_iff_ne] at hnot
        exact .inr (.inr ⟨body, stop, ⟨lt, hbody⟩, hnot.1, hnot.2, rfl⟩)
      · cases h

/-- The second rule is only broken where a line break follows the body, and a token somewhere below. -/
theorem below_of_bodyMayEnd {head stop : Cursor} (h : bodyMayEnd layout head stop = false) :
    stop.rest.head? = some .newline ∧ stop.skipBreaks.rest ≠ [] := by
  simp only [bodyMayEnd, Bool.or_eq_false_iff, beq_eq_false_iff_ne] at h
  rcases h with ⟨⟨hline, hend⟩, -⟩
  refine ⟨?_, fun hrest => ?_⟩
  · by_cases hnext : stop.rest.head? = some .newline
    · exact hnext
    · exact absurd ((skipBreaks_line_eq_iff stop).2 hnext) hline
  · rw [atEnd_iff.2 hrest] at hend
    cases hend

/-- A function fails behind its `def`, if its body fails ahead of where it starts. -/
theorem Stmt.stopped_behind_def {c₁ : Cursor} {h₁ : c₁.rest.length < c.rest.length}
    (hdef : c.next? = some ⟨.word .defWord, c₁, h₁⟩)
    (hbody : ∀ r : Read (String × List String) c₁, Stmt.read layout r.next.skipBreaks = .error f →
      f.Stopped r.next.skipBreaks)
    (h : Stmt.read layout c = .error f) : f.Stopped c₁ := by
  cases hhead : readHead c₁ with
  | error g =>
    rw [Stmt.read] at h
    simp only [hdef, hhead] at h
    cases h
    exact stopped_of_readHead hhead
  | ok r =>
    have hsig := passes_of_readHead hhead
    obtain ⟨breaks, -, hskip⟩ := passes_skipBreaks r.next
    rcases Stmt.read_function_error ((passes_of_next? hdef).cons hsig) h with
      ⟨-, -, rfl⟩ | h | ⟨body, stop, ⟨lt, hread⟩, -, hnot, rfl⟩
    · exact .here (hsig.trans hskip) (by decide)
    · exact (hbody r h).behind (hsig.trans hskip)
    · obtain ⟨ts, hp, hd⟩ := Stmt.derives_of_read hread
      obtain ⟨us, t, rfl, ht⟩ := hd.last
      obtain ⟨hnext, hmore⟩ := below_of_bodyMayEnd hnot
      exact (Failure.Stopped.below hp ht hnext hmore).behind (hsig.trans hskip)

theorem Stmt.stopped_of_read (h : Stmt.read layout c = .error f) : f.Stopped c := by
  induction c using Stmt.read.induct with
  | case1 c c₁ h₁ hdef ih =>
    exact (Stmt.stopped_behind_def hdef (fun r hr => ih r.next r.shorter hr) h).behind (passes_of_next? hdef)
  | case2 c c₁ h₁ hret =>
    rw [Stmt.read] at h
    simp only [hret] at h
    rcases Except.bind_eq_error.1 h with h | ⟨_, -, h⟩
    · exact (Expr.stopped_of_read h).behind (passes_of_next? hret)
    · cases h
  | case3 c x c₁ h₁ htarget hdef hret =>
    rw [Stmt.read_of_target? htarget] at h
    rcases Except.bind_eq_error.1 h with h | ⟨_, -, h⟩
    · exact (Expr.stopped_of_read h).behind (passes_of_target? htarget)
    · cases h
  | case4 c htarget hdef hret =>
    rw [Stmt.read_of_no_form htarget (head?_ne_of_next? hdef) (head?_ne_of_next? hret)] at h
    rcases Except.bind_eq_error.1 h with h | ⟨_, -, h⟩
    · exact Expr.stopped_of_read h
    · cases h

/-- A statement and what follows it. -/
theorem Program.stopped_cons (hrest : ∀ (r : Read Stmt c) g, Program.readRest layout r.next = .error g → g.Stopped r.next)
    (h : (do
      let ⟨s, c₁, _⟩ ← Stmt.read layout c
      let (ss, last) ← Program.readRest layout c₁
      return (s :: ss, last) : Except Failure (Program × Cursor)) = .error f) : f.Stopped c := by
  rcases Except.bind_eq_error.1 h with h | ⟨r, hs, h⟩
  · exact Stmt.stopped_of_read h
  · obtain ⟨ts, hts, -⟩ := Stmt.derives_of_read hs
    rcases Except.bind_eq_error.1 h with h | ⟨_, -, h⟩
    · exact (hrest r f h).behind hts
    · cases h

theorem Program.stopped_of_readRest (h : Program.readRest layout c = .error f) : f.Stopped c := by
  induction c using Program.readRest.induct generalizing f with
  | case1 c =>
    rename_i hdone
    rw [Program.readRest, if_pos hdone] at h
    cases h
  | case2 c =>
    rename_i hdone hempty
    rw [Program.readRest, if_neg hdone, if_pos hempty] at h
    cases h
    exact .here (.refl c) (by decide)
  | case3 c =>
    rename_i hdone hempty ih
    rw [Program.readRest, if_neg hdone, if_neg hempty] at h
    exact (Program.stopped_cons (fun r _ hg => ih r.next r.shorter hg) h).behind (passes_skipWhile _ c)

theorem Program.stopped_of_read (h : Program.read layout c = .error f) : f.Stopped c := by
  obtain ⟨breaks, -, hskip⟩ := passes_skipBreaks c
  exact (Program.stopped_cons (fun _ _ hg => Program.stopped_of_readRest hg) h).behind hskip

theorem Stmt.failsAhead (layout : Option Layout) (c : Cursor) : FailsAhead c (Stmt.read layout c) :=
  fun _ h => (Stmt.stopped_of_read h).ahead

theorem Program.failsAhead_readRest (layout : Option Layout) (c : Cursor) :
    FailsAhead c (Program.readRest layout c) :=
  fun _ h => (Program.stopped_of_readRest h).ahead

end ScriptToC
