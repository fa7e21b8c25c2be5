/-
  ScriptToC.Proofs.ResumedReading — reading programs from the same tokens again and again, each time from
  where the last reading left the cursor (`reading_resumes`).

  What lies behind the cursor is forgotten but for its numbers: a reading in the middle of the tokens goes in
  lockstep with one of the rest alone, under the lines of the layout that are left (`Beyond.lockstep`). Where
  an error leaves the cursor is known from `Failure.Stopped`.
-/

import ScriptToC.Proofs.JoinedTokens
import ScriptToC.Proofs.Lockstep

namespace ScriptToC

open Cursor

/-! ## Behind the first tokens -/

/-- The lines from one on. -/
def Layout.behind (lines : Nat) (layout : Layout) : Layout := ⟨layout.depths.drop lines⟩

theorem Layout.depth_behind (layout : Layout) (lines k : Nat) :
    (layout.behind lines).depth k = layout.depth (lines + k) := by
  rw [Layout.depth, Layout.behind, List.getElem?_drop, Layout.depth]

/-- The same error among more tokens, with `tokens` of them in front. -/
def Unexpected.movedBy (tokens : Nat) (e : Unexpected) : Unexpected := { e with position := tokens + e.position }

/-- The cursors in tokens with others in front, and in these tokens alone. -/
inductive Beyond (front ts : List Token) : Cursor → Cursor → Prop
  | intro (i : Nat) : Beyond front ts (before (front ++ ts) (front.length + i)) (before ts i)

variable {front ts : List Token} {layout : Option Layout} {c c' d d' : Cursor}

namespace Beyond

theorem head (h : Beyond front ts c d) : c.rest.head? = d.rest.head? := by
  cases h with
  | intro i => rw [before_front_rest]

theorem index (h : Beyond front ts c d) : c = before (front ++ ts) (front.length + d.index) := by
  cases h with
  | intro i => rfl

theorem depth (h : Beyond front ts c d) (l : Layout) : c.depth l = d.depth (l.behind (front.count .newline)) := by
  cases h with
  | intro i => rw [Cursor.depth, Cursor.depth, Layout.depth_behind, before_front_line]

theorem fail (h : Beyond front ts c d) (x : Expectation) : (c.fail x).error = (d.fail x).error.movedBy front.length := by
  cases h with
  | intro i =>
    rw [Cursor.fail, before_front_rest]
    rfl

theorem lockstep (front ts : List Token) (layout : Option Layout) :
    Lockstep layout (layout.map (.behind (front.count .newline))) (Beyond front ts) where
  head h := h.head
  next h _ hp hp' := by
    cases h with
    | intro i =>
      rw [hp.eq_before, hp'.eq_before, hp.index, hp'.index]
      exact .intro (i + 1)
  breaks h := by
    cases h with
    | intro i =>
      rw [before_skipBreaks_eq, before_skipBreaks_eq, behindBreaks_front]
      exact .intro _
  deeper h h' _ _ := by
    rw [Option.map_map]
    exact Option.map_congr (fun l _ => by rw [Function.comp_apply, h.depth, h'.depth])

end Beyond

theorem Program.readFrom_behind (layout : Option Layout) (front ts : List Token) :
    Program.readFrom layout (before (front ++ ts) front.length) =
      let alone := Program.readFrom (layout.map (.behind (front.count .newline))) (start ts)
      (alone.1.mapError (.movedBy front.length), before (front ++ ts) (front.length + alone.2.index)) := by
  have hstart : Beyond front ts (before (front ++ ts) front.length) (start ts) := by
    rw [start_eq_before]
    exact .intro 0
  obtain ⟨hlast, hresult⟩ := (Beyond.lockstep front ts layout).readFrom hstart
  refine Prod.ext ?_ hlast.index
  dsimp only
  rcases hresult with ⟨program, hp, hp'⟩ | ⟨c, d, x, hcd, he, he'⟩
  · rw [hp, hp']
    rfl
  · rw [he, he', hcd.fail]
    rfl

/-- A reading from the middle of the tokens is one of the rest alone. -/
theorem Program.readFrom_before (layout : Option Layout) {p : Nat} (hp : p ≤ ts.length) :
    Program.readFrom layout (before ts p) =
      let alone := Program.readFrom (layout.map (.behind ((ts.take p).count .newline))) (start (ts.drop p))
      (alone.1.mapError (.movedBy p), before ts (p + alone.2.index)) := by
  have hsplit := Program.readFrom_behind layout (ts.take p) (ts.drop p)
  rwa [List.take_append_drop, List.length_take_of_le hp] at hsplit

/-! ## Where a reading leaves the cursor -/

/-- At the end of the tokens a statement is wanted. -/
theorem Stmt.read_at_end (layout : Option Layout) (hend : c.rest = []) :
    Stmt.read layout c = .error (c.fail .expression) := by
  have hhead : c.rest.head? = none := List.head?_eq_none_iff.2 hend
  have htarget : c.target? = none := target?_eq_none (by simp [hhead])
  have hnext : ∀ t ∈ (none : Option Token), t.beginsExpr = false := by simp
  have hexpr : Expr.read .conditional c = .error (c.fail .expression) :=
    (Expr.Stuck.nil .conditional hnext).fails c c (.refl c) hhead
  rw [Stmt.read_of_no_form htarget (by simp [hhead]) (by simp [hhead]), hexpr]
  rfl

theorem Program.readFrom_at_end (layout : Option Layout) (ts : List Token) :
    Program.readFrom layout (before ts ts.length) = (.error ⟨.expression, none, ts.length⟩, before ts ts.length) := by
  have hend : (before ts ts.length).rest = [] := List.drop_length
  have hskip : (before ts ts.length).skipBreaks = before ts ts.length :=
    (Passes.refl _).skipBreaks (List.forall_mem_nil _) (by simp [hend])
  have hstmt := Stmt.read_at_end layout (hskip ▸ hend)
  unfold Program.readFrom Program.read
  rw [hstmt, Except.error_bind]
  dsimp only
  rw [hskip, Cursor.fail, hend]
  rfl

/-- All the line breaks in front of a position, of which there is at least one, begin at `first`. -/
structure BreaksBefore (ts : List Token) (first position : Nat) : Prop where
  lt : first < position
  breaks : ∀ i, first ≤ i → i < position → ts[i]? = some .newline
  all : 0 < first ∧ ts[first - 1]? ≠ some .newline

/-- An error leaves the cursor at its position, or in front of the line breaks there. -/
structure LeftAt (ts : List Token) (e : Unexpected) (c : Cursor) : Prop where
  here : e.expected ≠ .statementBelowBody → c = before ts e.position
  below : e.expected = .statementBelowBody → ∃ first, c = before ts first ∧ BreaksBefore ts first e.position

theorem Cursor.breaksBefore {q : Nat} (hlast : 0 < q ∧ ts[q - 1]? ≠ some .newline) (hnext : ts[q]? = some .newline)
    (hmore : (before ts q).skipBreaks.rest ≠ []) : BreaksBefore ts q (before ts q).skipBreaks.index := by
  obtain ⟨j, hskip, hqj, hj, hbreaks⟩ := before_skipBreaks ts q
  rw [hskip] at hmore ⊢
  have hjlt : j < ts.length := by
    by_cases hle : ts.length ≤ j
    · exact absurd (List.drop_eq_nil_of_le hle) hmore
    · omega
  have hne : q ≠ j := fun heq => hj (heq ▸ hnext)
  refine ⟨show q < j by omega, fun i hqi hij => ?_, hlast⟩
  have hsome := List.getElem?_eq_getElem (show i < ts.length by have : i < j := hij; omega)
  rw [hsome, hbreaks i _ hqi hij hsome]

theorem Failure.Stopped.leftAt {f : Failure} {p : Nat} (h : f.Stopped (before ts p)) : LeftAt ts f.error f.stopped := by
  cases h with
  | here hp hx => exact ⟨fun _ => hp.eq_before, fun heq => absurd heq hx⟩
  | @below us t d hp ht hnext hmore =>
    refine ⟨fun hne => absurd rfl hne, fun _ => ?_⟩
    obtain ⟨q, rfl⟩ : ∃ q, d = before ts q := ⟨_, hp.eq_before⟩
    obtain ⟨e, hp, hlast⟩ := hp.split
    obtain ⟨k, rfl⟩ : ∃ k, e = before ts k := ⟨_, hp.eq_before⟩
    obtain rfl : q = k + 1 := hlast.index
    have hget : ts[k]? = some t := by
      rw [← List.head?_drop]
      exact hlast.head?
    refine ⟨k + 1, rfl, breaksBefore ⟨Nat.succ_pos k, ?_⟩ ?_ hmore⟩
    · rw [Nat.add_sub_cancel, hget]
      exact fun heq => ht (Option.some.inj heq)
    · rw [← List.head?_drop]
      exact hnext

/-! ## One reading after the other -/

/-- The cursor after so many readings from the start. -/
def Program.resumed (layout : Option Layout) (ts : List Token) : Nat → Cursor
  | 0 => start ts
  | n + 1 => (Program.readFrom layout (Program.resumed layout ts n)).2

/-- One reading. -/
theorem Program.readFrom_spec (layout : Option Layout) {p : Nat} (hp : p ≤ ts.length) :
    (∃ program, Program.readFrom layout (before ts p) = (.ok program, before ts ts.length)) ∨
      ∃ e c, Program.readFrom layout (before ts p) = (.error e, c) ∧ LeftAt ts e c ∧ c.index ≤ ts.length ∧
        c = before ts c.index := by
  unfold Program.readFrom
  cases h : Program.read layout (before ts p) with
  | ok r =>
    obtain ⟨us, hus, hlast, -⟩ := Program.derives_of_read h
    have hend : ts.length ≤ r.2.index := by
      rw [hus.eq_before] at hlast
      exact List.drop_eq_nil_iff.1 hlast
    have hindex : r.2.index = ts.length := Nat.le_antisymm (hus.index_le_length hp) hend
    refine .inl ⟨r.1, ?_⟩
    dsimp only
    rw [hus.eq_before, hindex]
  | error f =>
    have hstopped := Program.stopped_of_read h
    obtain ⟨us, hus⟩ := hstopped.passes
    exact .inr ⟨f.error, f.stopped, rfl, hstopped.leftAt, hus.index_le_length hp, hus.eq_before⟩

theorem Program.resumed_eq_before (layout : Option Layout) (ts : List Token) (n : Nat) :
    ∃ p ≤ ts.length, Program.resumed layout ts n = before ts p := by
  induction n with
  | zero => exact ⟨0, Nat.zero_le _, start_eq_before ts⟩
  | succ n ih =>
    obtain ⟨p, hp, hresumed⟩ := ih
    rw [Program.resumed, hresumed]
    rcases Program.readFrom_spec layout hp with ⟨program, h⟩ | ⟨e, c, h, -, hle, hc⟩
    · exact ⟨ts.length, Nat.le_refl _, by rw [h]⟩
    · exact ⟨c.index, hle, by rw [h, ← hc]⟩

theorem Program.resumed_at_end {n m : Nat} (h : Program.resumed layout ts n = before ts ts.length) (hnm : n ≤ m) :
    Program.resumed layout ts m = before ts ts.length := by
  induction hnm with
  | refl => exact h
  | step _ ih => rw [Program.resumed, ih, Program.readFrom_at_end]

/-- However many readings there were, the next one starts at some index and is one of the tokens from there
    on, under the lines of the layout that are left. After a program the tokens are at their end and stay
    there, with an error that tells so, and after an error the cursor is where it tells. -/
theorem reading_resumes (layout : Option Layout) (ts : List Token) (n : Nat) :
    ∃ p ≤ ts.length, Program.resumed layout ts n = before ts p ∧
      let call := Program.readFrom layout (before ts p)
      let alone := Program.readFrom (layout.map (.behind ((ts.take p).count .newline))) (start (ts.drop p))
      call = (alone.1.mapError (.movedBy p), before ts (p + alone.2.index)) ∧
      (∀ program, call.1 = .ok program → call.2 = before ts ts.length ∧ ∀ m > n, ∃ e,
        Program.readFrom layout (Program.resumed layout ts m) = (.error e, before ts ts.length) ∧
          e.position = ts.length ∧ e.foundText = "end of input") ∧
      ∀ e, call.1 = .error e → LeftAt ts e call.2 := by
  obtain ⟨p, hp, hresumed⟩ := Program.resumed_eq_before layout ts n
  refine ⟨p, hp, hresumed, Program.readFrom_before layout hp, fun program hok => ?_, fun e herror => ?_⟩
  · rcases Program.readFrom_spec layout hp with ⟨program', h⟩ | ⟨e, c, h, -⟩
    · have hend : Program.resumed layout ts (n + 1) = before ts ts.length := by rw [Program.resumed, hresumed, h]
      refine ⟨by rw [h], fun m hm => ⟨⟨.expression, none, ts.length⟩, ?_, rfl, rfl⟩⟩
      rw [Program.resumed_at_end hend hm, Program.readFrom_at_end]
    · rw [h] at hok
      cases hok
  · rcases Program.readFrom_spec layout hp with ⟨program, h⟩ | ⟨e', c, h, hleft, -⟩
    · rw [h] at herror
      cases herror
    · rw [h] at herror ⊢
      cases herror
      exact hleft

/-- The line below the body is too deep. The second reading starts in front of it and is a program. -/
theorem a_reading_resumes_below_a_body :
    let ts : List Token :=
      [.word .defWord, .name "f", .mark .openParen, .mark .closeParen, .mark .colon, .newline, .number 1, .newline,
        .number 2]
    let layout : Option Layout := some ⟨[0, 2, 2]⟩
    let e : Unexpected := ⟨.statementBelowBody, some (.number 2), 8⟩
    (Program.readFrom layout (start ts)).1 = .error e ∧ LeftAt ts e (Program.resumed layout ts 1) ∧
      (Program.readFrom layout (before ts 7)).1 = .ok [.expr (.number 2)] ∧
      ∃ e, Program.readFrom layout (Program.resumed layout ts 2) = (.error e, before ts 9) ∧ e.position = 9 ∧
        e.foundText = "end of input" := by
  intro ts layout e
  have herror : (Program.readFrom layout (start ts)).1 = .error e := by decide +kernel
  have hok : (Program.readFrom layout (before ts 7)).1 = .ok [.expr (.number 2)] := by decide +kernel
  have hseven : Program.resumed layout ts 1 = before ts 7 := by decide +kernel
  refine ⟨herror, ?_, hok, ?_⟩
  · obtain ⟨p, -, hp, -, -, hleft⟩ := reading_resumes layout ts 0
    obtain rfl : 0 = p := congrArg Cursor.index hp
    rw [← start_eq_before] at hleft
    exact hleft e herror
  · obtain ⟨p, -, hp, -, hend, -⟩ := reading_resumes layout ts 1
    obtain rfl : 7 = p := congrArg Cursor.index (hseven.symm.trans hp)
    exact (hend _ hok).2 2 (by decide)

end ScriptToC
