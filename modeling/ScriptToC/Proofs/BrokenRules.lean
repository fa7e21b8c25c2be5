/-
  ScriptToC.Proofs.BrokenRules — a program that a layout rejects holds a function that breaks a rule, and the
  error stands at the token that the rule is about: where the body starts, or the next one below its end
  (`Program.ruleBroken_of_ofTokens`).
-/

import ScriptToC.Proofs.LayoutRejects
import ScriptToC.Proofs.StuckPrograms

namespace ScriptToC

open Cursor

/-- A function of the tokens, with its body below the line of its `def`, breaks a rule, and the error tells
    which one and at which token. -/
inductive RuleBroken (layout : Option Layout) (ts : List Token) : Unexpected → Prop
  | start {head start stop : Nat} : FunctionAt ts head start stop → (before ts start).line ≠ (before ts head).line →
      bodyMayStart layout (before ts head) (before ts start) = false →
      RuleBroken layout ts ((before ts start).fail .indentedBody).error
  | stop {head start stop : Nat} : FunctionAt ts head start stop → (before ts start).line ≠ (before ts head).line →
      bodyMayEnd layout (before ts head) (before ts stop) = false →
      RuleBroken layout ts ((before ts (behindBreaks ts stop)).fail .statementBelowBody).error

variable {layout : Option Layout} {ts us : List Token} {i k : Nat} {last : Cursor} {f : Failure}

theorem Reading.Gives.ne_error {α : Type} {c d : Cursor} {reading : Reading α c} {a : α} (h : reading.Gives a d) :
    reading ≠ .error f := by
  rcases h with ⟨_, h⟩
  simp [h]

/-- A layout changes nothing about a statement that is read. -/
theorem Stmt.gives_none_of_gives {c d : Cursor} {s : Stmt} (h : (Stmt.read layout c).Gives s d) :
    (Stmt.read none c).Gives s d := by
  rcases h with ⟨lt, h⟩
  have hkeepsUp := Stmt.keepsUp layout c
  rw [h] at hkeepsUp
  refine ⟨lt, ?_⟩
  generalize Stmt.read none c = plain at hkeepsUp ⊢
  cases hkeepsUp with
  | same => rfl

theorem Stmt.Derives.ruleBroken {s : Stmt} (h : Stmt.Derives us s) (hp : (before ts i).Passes us (before ts k))
    (hend : (before ts k).EndsStmt) (herror : Stmt.read layout (before ts i) = .error f) :
    RuleBroken layout ts f.error := by
  induction h generalizing i with
  | assign he => exact absurd herror (Stmt.read_assign he hp hend).ne_error
  | ret he => exact absurd herror (Stmt.read_ret he hp hend).ne_error
  | expr he => exact absurd herror (Stmt.read_expr he hp hend).ne_error
  | @function name params breaks body s hbreaks hs ih =>
    rw [← List.cons_append] at hp
    obtain ⟨colon, hsig, hp⟩ := hp.split
    obtain ⟨start, hskip, hbody⟩ := hp.split
    have hstart := hskip.skipBreaks hbreaks (hs.not_break hbody)
    obtain ⟨j, rfl⟩ : ∃ j, start = before ts j := ⟨_, (hsig.trans hskip).eq_before⟩
    have hfun : FunctionAt ts i j k := .intro (hsig.trans hskip) hbreaks hbody hs hend
    rcases Stmt.read_function_error hsig herror with ⟨hline, hnot, rfl⟩ | herror | ⟨_, stop, hgives, hline, hnot, rfl⟩
    · rw [hstart] at hline hnot ⊢
      exact .start hfun hline hnot
    · rw [hstart] at herror
      exact ih hbody herror
    · -- Without a layout the body ends at the same token.
      rw [hstart] at hgives hline
      obtain ⟨-, rfl⟩ := (hs.read hbody hend).unique (Stmt.gives_none_of_gives hgives)
      rw [before_skipBreaks_eq]
      exact .stop hfun hline hnot

/-! ## Programs -/

/-- A statement and what follows it: `hrest` is about the tokens behind the statement. -/
theorem Program.ruleBroken_cons {c : Cursor} {s : Stmt} (hc : c = before ts i) (hs : Stmt.Derives us s)
    (hp : (before ts i).Passes us (before ts k)) (hend : (before ts k).EndsStmt)
    (hrest : Program.readRest layout (before ts k) = .error f → RuleBroken layout ts f.error)
    (herror : (do
      let ⟨s, c₁, _⟩ ← Stmt.read layout c
      let (ss, last) ← Program.readRest layout c₁
      return (s :: ss, last) : Except Failure (Program × Cursor)) = .error f) : RuleBroken layout ts f.error := by
  subst hc
  rcases Except.bind_eq_error.1 herror with herror | ⟨⟨_, stop, lt⟩, hread, herror⟩
  · exact hs.ruleBroken hp hend herror
  · obtain ⟨-, rfl⟩ := (hs.read hp hend).unique (Stmt.gives_none_of_gives ⟨lt, hread⟩)
    rcases Except.bind_eq_error.1 herror with herror | ⟨r, -, herror⟩
    · exact hrest herror
    · cases herror

theorem Program.Continues.ruleBroken {ss : Program} (h : Program.Continues us ss)
    (hp : (before ts i).Passes us last) (hlast : last.rest = [])
    (herror : Program.readRest layout (before ts i) = .error f) : RuleBroken layout ts f.error := by
  induction h generalizing i with
  | done hbreaks =>
    rw [Program.readRest_done hbreaks hp hlast] at herror
    cases herror
  | next hne hseps hs hrest ih =>
    obtain ⟨next, hp₁, hp⟩ := hp.split
    obtain ⟨c₁, hp₂, hp₃⟩ := hp.split
    obtain ⟨j, rfl⟩ : ∃ j, next = before ts j := ⟨_, hp₁.eq_before⟩
    obtain ⟨k, rfl⟩ : ∃ k, c₁ = before ts k := ⟨_, hp₂.eq_before⟩
    obtain ⟨t, us, rfl, ht⟩ := hs.begins
    have hend := hrest.endsStmt hp₃ hlast
    rw [Program.readRest_of_statement hne hseps hp₁ (by rw [hp₂.head?]; simpa using ht)
      (by rw [hp₂.head?]; simp)] at herror
    exact Program.ruleBroken_cons rfl hs hp₂ hend (ih hp₃) herror

theorem Program.Derives.ruleBroken {p : Program} (h : Program.Derives us p) (hp : (before ts i).Passes us last)
    (hlast : last.rest = []) (herror : Program.read layout (before ts i) = .error f) :
    RuleBroken layout ts f.error := by
  cases h with
  | start hbreaks hs hrest =>
    obtain ⟨next, hp₁, hp⟩ := hp.split
    obtain ⟨c₁, hp₂, hp₃⟩ := hp.split
    obtain ⟨j, rfl⟩ : ∃ j, next = before ts j := ⟨_, hp₁.eq_before⟩
    obtain ⟨k, rfl⟩ : ∃ k, c₁ = before ts k := ⟨_, hp₂.eq_before⟩
    have hskip := hp₁.skipBreaks hbreaks (hs.not_break hp₂)
    unfold Program.read at herror
    exact Program.ruleBroken_cons hskip hs hp₂ (hrest.endsStmt hp₃ hlast) (hrest.ruleBroken hp₃ hlast) herror

/-- The error of a program of the grammar comes from a function that breaks a rule of the layout. -/
theorem Program.ruleBroken_of_ofTokens {p : Program} {e : Unexpected} (h : Program.Derives ts p)
    (herror : Program.ofTokens layout ts = .error e) : RuleBroken layout ts e := by
  obtain ⟨f, hread, rfl⟩ := Program.ofTokens_eq_error.1 herror
  have hp := passes_start ts []
  rw [List.append_nil, start_eq_before] at hp
  rw [start_eq_before] at hread
  exact h.ruleBroken hp rfl hread

end ScriptToC
