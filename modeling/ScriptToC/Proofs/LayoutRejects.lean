/-
  ScriptToC.Proofs.LayoutRejects — a layout changes nothing about a program that is read: it only rejects, and
  only by its two rules.

  Reading with a layout goes along with reading without one, step by step, until a rule is broken
  (`KeepsUp`). The second rule is about a token that has not been read yet, but no error that would come
  without the layout stands before it. Main statement: `layout_only_rejects`.
-/

import ScriptToC.Proofs.Failing
import ScriptToC.Proofs.Indentation

namespace ScriptToC

open Cursor

/-! ## Two readings side by side -/

/-- The two errors that only a layout gives. -/
def Unexpected.BreaksLayout (u : Unexpected) : Prop :=
  u.expected.text = "indented function body" ∨ u.expected.text = "statement at the indentation of 'def'"

/-- What is read with a layout beside what is read without one, which comes as far as `reach`: the same, or
    an error of the layout that stands no later than the other reading's error or reach. -/
inductive KeepsUp {α : Type} (reach : α → Nat) (plain : Except Failure α) : Except Failure α → Prop
  | same : KeepsUp reach plain plain
  | broken {f : Failure} : f.error.BreaksLayout → (∀ g, plain = .error g → f.error.position ≤ g.error.position) →
      (∀ a, plain = .ok a → f.error.position ≤ reach a) → KeepsUp reach plain (.error f)

/-- A next step goes along too, if it fails or arrives behind what the first one has reached. -/
theorem KeepsUp.bind {α β : Type} {reach : α → Nat} {reach' : β → Nat} {x y : Except Failure α}
    {k l : α → Except Failure β} (h : KeepsUp reach x y) (hk : ∀ a, x = .ok a → KeepsUp reach' (k a) (l a))
    (hfail : ∀ a g, x = .ok a → k a = .error g → reach a ≤ g.error.position)
    (hok : ∀ a b, x = .ok a → k a = .ok b → reach a ≤ reach' b) : KeepsUp reach' (x >>= k) (y >>= l) := by
  cases h with
  | same =>
    cases x with
    | error f => exact .same
    | ok a => exact hk a rfl
  | @broken f hlayout hplain hreach =>
    refine .broken hlayout (fun g hg => ?_) (fun b hb => ?_)
    · cases x with
      | error f' =>
        cases hg
        exact hplain _ rfl
      | ok a => exact Nat.le_trans (hreach a rfl) (hfail a g rfl hg)
    · cases x with
      | error f' => cases hb
      | ok a => exact Nat.le_trans (hreach a rfl) (hok a b rfl hb)

/-- What both read first is not compared. -/
theorem KeepsUp.bind_same {α β : Type} {reach : β → Nat} {x : Except Failure α} {k l : α → Except Failure β}
    (hk : ∀ a, x = .ok a → KeepsUp reach (k a) (l a)) : KeepsUp reach (x >>= k) (x >>= l) := by
  cases x with
  | error f => exact .same
  | ok a => exact hk a rfl

/-- One rule more. -/
theorem KeepsUp.require {α : Type} {reach : α → Nat} {x y : Except Failure α} (h : KeepsUp reach x y) {f : Failure}
    (hlayout : f.error.BreaksLayout) (hplain : ∀ g, x = .error g → f.error.position ≤ g.error.position)
    (hreach : ∀ a, x = .ok a → f.error.position ≤ reach a) (kept : Bool) :
    KeepsUp reach x (ScriptToC.require kept f >>= fun _ => y) := by
  cases kept with
  | false => exact .broken hlayout hplain hreach
  | true => exact h

/-! ## Statements -/

theorem Cursor.index_le_skipBreaks (c : Cursor) : c.index ≤ c.skipBreaks.index := Nat.le_add_right _ _

/-- How far a statement is looked at: up to the first token behind it that is no line break. -/
def Read.reach {α : Type} {c : Cursor} (r : Read α c) : Nat := r.next.skipBreaks.index

theorem Stmt.index_le_reach {layout : Option Layout} {c : Cursor} {r : Read Stmt c} (h : Stmt.read layout c = .ok r) :
    c.index ≤ r.reach := by
  obtain ⟨ts, hp, -⟩ := Stmt.derives_of_read h
  exact Nat.le_trans hp.index_le (index_le_skipBreaks _)

theorem Stmt.keepsUp (layout : Option Layout) (c : Cursor) :
    KeepsUp Read.reach (Stmt.read none c) (Stmt.read layout c) := by
  induction c using Stmt.read.induct with
  | case1 c c₁ h₁ hdef ih =>
    have hstart : ∀ start, bodyMayStart none c start = true := by simp [bodyMayStart]
    have hstop : ∀ stop, bodyMayEnd none c stop = true := by simp [bodyMayEnd]
    have hok : ∀ f, ScriptToC.require true f = .ok () := fun _ => rfl
    rw [Stmt.read, Stmt.read]
    simp only [hdef, hstart, hstop, Bool.or_true, hok, Except.ok_bind]
    refine .bind_same (fun r _ => ?_)
    rcases r with ⟨⟨f, ps⟩, c₂, h₂⟩
    have hbody := Stmt.failsAhead none c₂.skipBreaks
    -- The first rule is about the token where the body starts, so nothing of the body comes before it.
    refine .require ?_ (.inl rfl) (fun g hg => ?_) (fun r hr => ?_) _
    · refine .bind (ih c₂ h₂) (fun r _ => ?_) (fun _ _ _ hk => ?_) (fun _ _ _ hk => ?_)
      · refine .require .same (.inr rfl) (fun _ hg => ?_) (fun _ hr => ?_) _
        · cases hg
        · cases hr
          exact Nat.le_refl _
      · cases hk
      · cases hk
        exact Nat.le_refl _
    · exact (hbody.bind (fun _ _ => .ok _ _) g hg).index_le
    · obtain ⟨⟨body, c₄, h₄⟩, hread, hr⟩ := Except.bind_eq_ok.1 hr
      cases hr
      exact Stmt.index_le_reach hread
  | case2 c c₁ h₁ hret =>
    rw [Stmt.read, Stmt.read]
    simp only [hret]
    exact .same
  | case3 c x c₁ h₁ htarget hdef hret =>
    rw [Stmt.read_of_target? htarget, Stmt.read_of_target? htarget]
    exact .same
  | case4 c htarget hdef hret =>
    have hdef := head?_ne_of_next? hdef
    have hret := head?_ne_of_next? hret
    rw [Stmt.read_of_no_form htarget hdef hret, Stmt.read_of_no_form htarget hdef hret]
    exact .same

/-! ## Programs -/

theorem Cursor.Passes.skipBreaks_index_le {c last : Cursor} {us : List Token} (h : c.Passes us last)
    (hlast : last.rest = []) : c.skipBreaks.index ≤ last.index := by
  obtain ⟨breaks, -, hskip⟩ := passes_skipBreaks c
  have hrest := hskip.rest
  rw [h.rest, hlast, List.append_nil] at hrest
  rw [h.index, hskip.index, hrest, List.length_append]
  omega

theorem Cursor.skipBreaks_index_le_separators (c : Cursor) :
    c.skipBreaks.index ≤ (c.skipWhile Token.isSeparator).index := by
  have hle : ∀ ts : List Token,
      (ts.takeWhile (· = .newline)).length ≤ (ts.takeWhile Token.isSeparator).length := by
    intro ts
    induction ts with
    | nil => exact Nat.le_refl _
    | cons t ts ih =>
      by_cases ht : t = .newline
      · simpa [ht, Token.isSeparator] using ih
      · simp [ht]
  exact Nat.add_le_add_left (hle c.rest) c.index

/-- What follows a statement fails behind the line breaks that are next. -/
theorem Program.reach_le_of_readRest {c : Cursor} {f : Failure} (h : Program.readRest none c = .error f) :
    c.skipBreaks.index ≤ f.error.position := by
  rw [Program.readRest] at h
  split at h
  · cases h
  · split at h
    · rename_i hempty
      cases h
      have hnone := Nat.le_of_eq (congrArg List.length (List.isEmpty_iff.1 hempty))
      have hle := c.skipBreaks_index_le_separators
      exact Nat.le_trans hle (Nat.add_le_add_left hnone c.index)
    · refine Nat.le_trans c.skipBreaks_index_le_separators (Failure.Ahead.index_le (FailsAhead.bind ?_ ?_ f h))
      · exact Stmt.failsAhead none _
      · intro r hs
        obtain ⟨ts, hts, -⟩ := Stmt.derives_of_read hs
        exact .behind hts ((Program.failsAhead_readRest none _).bind (fun _ _ => .ok _ _))

theorem Program.reach_le_of_readRest_ok {c last : Cursor} {ss : Program} (h : Program.readRest none c = .ok (ss, last)) :
    c.skipBreaks.index ≤ last.index := by
  obtain ⟨us, hp, hlast, -⟩ := Program.continues_of_readRest h
  exact hp.skipBreaks_index_le hlast

/-- How far a program is looked at: to the end of the tokens. -/
def Program.reach (r : Program × Cursor) : Nat := r.2.index

/-- A statement and what follows it. -/
theorem Program.keepsUp_cons {layout : Option Layout} {c : Cursor}
    (hrest : ∀ r, Stmt.read none c = .ok r →
      KeepsUp Program.reach (Program.readRest none r.next) (Program.readRest layout r.next)) :
    KeepsUp Program.reach
      (do let ⟨s, c₁, _⟩ ← Stmt.read none c; let (ss, last) ← Program.readRest none c₁; return (s :: ss, last))
      (do let ⟨s, c₁, _⟩ ← Stmt.read layout c; let (ss, last) ← Program.readRest layout c₁; return (s :: ss, last)) := by
  refine .bind (Stmt.keepsUp layout c) (fun r hs => ?_) (fun r g _ hg => ?_) (fun r a _ ha => ?_)
  · refine .bind (hrest r hs) (fun _ _ => .same) (fun _ _ _ hg => ?_) (fun _ _ _ hb => ?_)
    · cases hg
    · cases hb
      exact Nat.le_refl _
  · cases hread : Program.readRest none r.next with
    | error f =>
      simp only [hread] at hg
      cases hg
      exact Program.reach_le_of_readRest hread
    | ok a =>
      simp only [hread] at hg
      cases hg
  · obtain ⟨⟨ss, last⟩, hread, ha⟩ := Except.bind_eq_ok.1 ha
    cases ha
    exact Program.reach_le_of_readRest_ok hread

theorem Program.keepsUp_readRest (layout : Option Layout) (c : Cursor) :
    KeepsUp Program.reach (Program.readRest none c) (Program.readRest layout c) := by
  induction c using Program.readRest.induct with
  | case1 c =>
    rename_i hdone
    rw [Program.readRest, Program.readRest, if_pos hdone, if_pos hdone]
    exact .same
  | case2 c =>
    rename_i hdone hempty
    rw [Program.readRest, Program.readRest, if_neg hdone, if_neg hdone, if_pos hempty, if_pos hempty]
    exact .same
  | case3 c =>
    rename_i hdone hempty ih
    rw [Program.readRest, Program.readRest, if_neg hdone, if_neg hdone, if_neg hempty, if_neg hempty]
    exact Program.keepsUp_cons (fun r _ => ih r.next r.shorter)

theorem Program.keepsUp (layout : Option Layout) (c : Cursor) :
    KeepsUp Program.reach (Program.read none c) (Program.read layout c) :=
  Program.keepsUp_cons (fun r _ => Program.keepsUp_readRest layout r.next)

/-! ## The two rules, said by the tokens -/

/-- The first token from an index on that is no line break. -/
def behindBreaks (ts : List Token) (i : Nat) : Nat := i + ((ts.drop i).takeWhile (· = .newline)).length

/-- How deep the line of a token is indented: lines are counted by the line breaks in front. -/
def depthAt (layout : Layout) (ts : List Token) (i : Nat) : Nat := layout.depth ((ts.take i).count .newline)

/-- The colon that ends the head of a function: the first one behind its `def`. -/
def colonBehind (ts : List Token) (head : Nat) : Nat := head + (ts.drop head).idxOf (.mark .colon)

/-- The rules for a function whose body ends at `stop`. They say nothing of one-line functions. -/
def KeepsRules (layout : Layout) (ts : List Token) (head stop : Nat) : Prop :=
  ts[colonBehind ts head + 1]? = some .newline →
    depthAt layout ts head < depthAt layout ts (behindBreaks ts (colonBehind ts head + 1)) ∧
      (ts[stop]? = some .newline → behindBreaks ts stop < ts.length →
        depthAt layout ts (behindBreaks ts stop) ≤ depthAt layout ts head)

theorem signature_ends_in_colon (name : String) (params : List String) :
    ∃ us, .word .defWord :: signatureTokens name params = us ++ [.mark .colon] ∧ .mark .colon ∉ us := by
  refine ⟨.word .defWord :: .name name :: .mark .openParen :: (nameTokens params ++ [.mark .closeParen]), ?_, ?_⟩
  · simp [signatureTokens]
  · intro hmem
    simp only [List.mem_cons, List.mem_append, reduceCtorEq, Token.mark.injEq, List.not_mem_nil, or_false,
      false_or] at hmem
    simpa using nameTokens_mem hmem

/-- The colon of a function is the last token of its head. -/
theorem Cursor.Passes.colonBehind {ts : List Token} {head : Nat} {d : Cursor} {name : String} {params : List String}
    (h : (before ts head).Passes (.word .defWord :: signatureTokens name params) d) :
    ScriptToC.colonBehind ts head + 1 = d.index := by
  obtain ⟨us, hus, hnone⟩ := signature_ends_in_colon name params
  have hrest : ts.drop head = us ++ [.mark .colon] ++ d.rest := hus ▸ h.rest
  have hindex : d.index = head + (us ++ [Token.mark .colon]).length := hus ▸ h.index
  rw [ScriptToC.colonBehind, hrest, List.append_assoc, List.idxOf_append, if_neg hnone, hindex, List.length_append]
  simp
  omega

theorem Cursor.before_skipBreaks_eq (ts : List Token) (i : Nat) :
    (before ts i).skipBreaks = before ts (behindBreaks ts i) := by
  obtain ⟨breaks, -, hp⟩ := passes_skipBreaks (before ts i)
  exact hp.eq_before

/-- A line is left exactly when a line break is next. -/
theorem behindBreaks_line_iff (ts : List Token) (i : Nat) :
    (before ts (behindBreaks ts i)).line = (before ts i).line ↔ ts[i]? ≠ some .newline := by
  rw [← before_skipBreaks_eq, skipBreaks_line_eq_iff, ← List.head?_drop]
  rfl

theorem bodyMayStart_iff_depthAt {layout : Layout} {ts : List Token} {head start : Nat} (h : start < ts.length) :
    bodyMayStart (some layout) (before ts head) (before ts start) = true ↔
      depthAt layout ts head < depthAt layout ts start := by
  have hnotEnd : ¬(before ts start).atEnd = true := by
    rw [before_atEnd_iff, List.getElem?_eq_none_iff]
    omega
  unfold bodyMayStart
  simp only [Bool.not_eq_true] at hnotEnd
  rw [hnotEnd, Bool.false_or]
  exact decide_eq_true_iff

theorem bodyMayEnd_iff_depthAt {layout : Layout} {ts : List Token} {head stop : Nat} :
    bodyMayEnd (some layout) (before ts head) (before ts stop) = true ↔
      (ts[stop]? = some .newline → behindBreaks ts stop < ts.length →
        depthAt layout ts (behindBreaks ts stop) ≤ depthAt layout ts head) := by
  unfold bodyMayEnd
  rw [before_skipBreaks_eq]
  simp only [Bool.or_eq_true, beq_iff_eq, behindBreaks_line_iff, before_atEnd_iff, List.getElem?_eq_none_iff]
  have hdepth : (some layout).all (fun l => decide
      ((before ts (behindBreaks ts stop)).depth l ≤ (before ts head).depth l)) = true ↔
        depthAt layout ts (behindBreaks ts stop) ≤ depthAt layout ts head := decide_eq_true_iff
  rw [hdepth]
  constructor
  · intro h hbreak hlt
    rcases h with (h | h) | h
    · exact absurd hbreak h
    · omega
    · exact h
  · intro h
    by_cases hbreak : ts[stop]? = some .newline
    · by_cases hlt : behindBreaks ts stop < ts.length
      · exact .inr (h hbreak hlt)
      · exact .inl (.inr (by omega))
    · exact .inl (.inl hbreak)

theorem FunctionAt.keepsRules_iff {layout : Layout} {ts : List Token} {head start stop : Nat}
    (h : FunctionAt ts head start stop) :
    LaidOut (some layout) (before ts head) (before ts start) (before ts stop) ↔ KeepsRules layout ts head stop := by
  have hlt := h.lt
  rw [LaidOut, KeepsRules, bodyMayStart_iff_depthAt (by omega), bodyMayEnd_iff_depthAt]
  cases h with
  | intro hhead hbreaks hbody hs _ =>
    obtain ⟨colon, hsig, hskip⟩ := hhead.split
    have hsame := hskip.skipBreaks hbreaks (hs.not_break hbody)
    rw [hsig.eq_before, before_skipBreaks_eq, ← hsig.colonBehind] at hsame
    have hstart : behindBreaks ts (colonBehind ts head + 1) = start := congrArg Cursor.index hsame
    have hcolon : (before ts (colonBehind ts head + 1)).line = (before ts head).line := by
      rw [hsig.colonBehind, ← hsig.eq_before, hsig.line_signature]
    rw [hstart, ← hcolon, ← hstart, behindBreaks_line_iff]
    exact Decidable.imp_iff_not_or.symm

/-! ## Programs with and without a layout -/

theorem Program.ofTokens_same_or_broken (layout : Layout) (ts : List Token) :
    Program.ofTokens (some layout) ts = Program.ofTokens none ts ∨
      ∃ e', Program.ofTokens (some layout) ts = .error e' ∧ e'.BreaksLayout ∧
        ∀ e, Program.ofTokens none ts = .error e → e'.position ≤ e.position := by
  unfold Program.ofTokens Program.readFrom
  have hkeepsUp := Program.keepsUp (some layout) (Cursor.start ts)
  generalize Program.read none (Cursor.start ts) = plain at hkeepsUp ⊢
  generalize Program.read (some layout) (Cursor.start ts) = laid at hkeepsUp ⊢
  cases hkeepsUp with
  | same => exact .inl rfl
  | @broken f hlayout hplain _ =>
    refine .inr ⟨f.error, rfl, hlayout, fun e he => ?_⟩
    cases plain with
    | ok a => cases he
    | error g =>
      cases he
      exact hplain g rfl

/-- For all tokens and every layout: what is read with the layout is read without it. What is read
    without it is read with it, or breaks a rule. What is not read without it is not read with it, and the
    error is the same or comes no later, and then breaks a rule. -/
theorem layout_only_rejects (layout : Layout) (ts : List Token) :
    (∀ p, Program.ofTokens (some layout) ts = .ok p → Program.ofTokens none ts = .ok p) ∧
      (∀ p, Program.ofTokens none ts = .ok p →
        (Program.ofTokens (some layout) ts = .ok p ↔
          ∀ head, ts[head]? = some (.word .defWord) →
            ∃ start stop, FunctionAt ts head start stop ∧ KeepsRules layout ts head stop) ∧
        (Program.ofTokens (some layout) ts = .ok p ∨
          ∃ e, Program.ofTokens (some layout) ts = .error e ∧ e.BreaksLayout)) ∧
      ∀ e, Program.ofTokens none ts = .error e →
        ∃ e', Program.ofTokens (some layout) ts = .error e' ∧ e'.position ≤ e.position ∧ (e' = e ∨ e'.BreaksLayout) := by
  refine ⟨fun p hp => (Program.derives_of_ofTokens hp).ofTokens, fun p hp => ⟨?_, ?_⟩, fun e he => ?_⟩
  · rw [Program.ofTokens_eq_ok_iff_laidOut, and_iff_right (Program.derives_of_ofTokens hp)]
    refine forall₂_congr (fun head _ => exists₂_congr (fun start stop => ?_))
    exact and_congr_right (fun hfun => hfun.keepsRules_iff)
  · rcases Program.ofTokens_same_or_broken layout ts with hsame | ⟨e', he', hlayout, -⟩
    · exact .inl (hsame.trans hp)
    · exact .inr ⟨e', he', hlayout⟩
  · rcases Program.ofTokens_same_or_broken layout ts with hsame | ⟨e', he', hlayout, hle⟩
    · exact ⟨e, hsame.trans he, Nat.le_refl _, .inl rfl⟩
    · exact ⟨e', he', hle e he, .inr hlayout⟩

end ScriptToC
