/-
  ScriptToC.Proofs.Indentation — which scripts are accepted, said by the lines of their text
  (`compile_accepts_iff`).

  A body that starts below the line of its `def` is indented more deeply than that line. Below the
  body's end the first line that is not blank is not, so that it cannot be taken for one more line
  of the body. The second check is missing where a semicolon follows the body:
  `a_semicolon_hides_a_deeper_line`.
-/

import ScriptToC.Compile
import ScriptToC.Proofs.Functions
import ScriptToC.Proofs.SourceLines

namespace ScriptToC

open Cursor

/-! ## The line of a cursor -/

theorem Cursor.before_line_succ (ts : List Token) (i : Nat) :
    (before ts (i + 1)).line = (before ts i).line + if ts[i]? = some .newline then 1 else 0 := by
  show (ts.take (i + 1)).count .newline = (ts.take i).count .newline + _
  rw [List.take_add_one, List.count_append]
  rcases ts[i]? with _ | t
  · rfl
  · by_cases ht : t = .newline <;> simp [ht]

theorem Cursor.before_line_mono (ts : List Token) {i j : Nat} (h : i ≤ j) :
    (before ts i).line ≤ (before ts j).line := by
  obtain ⟨k, rfl⟩ := Nat.exists_eq_add_of_le h
  show (ts.take i).count .newline ≤ (ts.take (i + k)).count .newline
  rw [List.take_add, List.count_append]
  exact Nat.le_add_right _ _

theorem Cursor.before_atEnd_iff {ts : List Token} {i : Nat} : (before ts i).atEnd = true ↔ ts[i]? = none := by
  rw [atEnd_iff, List.getElem?_eq_none_iff]
  exact List.drop_eq_nil_iff

/-- Behind the line breaks that are next, there is no other. -/
theorem Cursor.before_skipBreaks (ts : List Token) (i : Nat) :
    ∃ j, (before ts i).skipBreaks = before ts j ∧ i ≤ j ∧ ts[j]? ≠ some .newline ∧
      ∀ k t, i ≤ k → k < j → ts[k]? = some t → t = .newline := by
  obtain ⟨breaks, hbreaks, hp⟩ := passes_skipBreaks (before ts i)
  refine ⟨_, hp.eq_before, hp.index_le, ?_, fun k t hik hkj ht => hbreaks t (hp.mem hik hkj ht)⟩
  intro hnewline
  have hrest : (before ts i).skipBreaks.rest = ts.drop (before ts i).skipBreaks.index :=
    congrArg Cursor.rest hp.eq_before
  refine (before ts i).skipBreaks_head? ?_
  rw [hrest, List.head?_drop, hnewline]

/-! ## One function -/

/-- The line where the body starts is deeper than that of the `def`. -/
def BodyDeeper (script : String) (head start : Nat) : Prop :=
  indentation script (lineOf script head) < indentation script (lineOf script start)

/-- The first line below the body that is not blank, if there is one, is not deeper than that of the
    `def`. -/
def BelowNotDeeper (script : String) (head stop : Nat) : Prop :=
  ∀ below, FirstLineBelow script (lineOf script (stop - 1)) below →
    indentation script below ≤ indentation script (lineOf script head)

variable {script : String} {lexed : Lexed} {head start stop : Nat}

theorem lineOf_eq_before (h : Lexed.ofString script = .ok lexed) {i : Nat} (hi : i < lexed.tokens.length) :
    lineOf script i = (before lexed.tokens i).line + 1 :=
  lineOf_eq h hi

theorem indentation_lineOf (h : Lexed.ofString script = .ok lexed) {i : Nat} (hi : i < lexed.tokens.length) :
    indentation script (lineOf script i) = (before lexed.tokens i).depth lexed.layout := by
  rw [lineOf_eq_before h hi, indentation_eq h]
  rfl

/-- A body ends on the line where the cursor behind it stands. -/
theorem FunctionAt.line_last {ts : List Token} (h : FunctionAt ts head start stop) :
    (before ts (stop - 1)).line = (before ts stop).line := by
  cases h with
  | intro _ _ hbody hs _ =>
    obtain ⟨us, t, rfl, ht⟩ := hs.last
    obtain ⟨c, hus, hlast⟩ := hbody.split
    have hc : (before ts stop).index = c.index + 1 := hlast.index
    have hindex : stop - 1 = c.index := by
      rw [before] at hc
      dsimp only at hc
      omega
    rw [hindex, ← hus.eq_before, hlast.line, List.count_singleton]
    simp [ht]

/-! ### What follows the body -/

theorem FunctionAt.separator {ts : List Token} (h : FunctionAt ts head start stop) (t : Token)
    (ht : ts[stop]? = some t) : t.isSeparator = true := by
  cases h with
  | intro _ _ _ _ hend =>
    refine hend t ?_
    show (ts.drop stop).head? = some t
    rw [List.head?_drop, ht]

/-- A token below the line of a cursor stands behind the line breaks that are next. -/
theorem exists_of_tokenBehind {ts : List Token} {j k : Nat}
    (hbreaks : ∀ i t, stop ≤ i → i < j → ts[i]? = some t → t = .newline) (hk : (before ts stop).line < k)
    (htoken : TokenBehind ts k) : ∃ t, ts[j]? = some t ∧ (before ts j).line ≤ k := by
  rcases htoken with ⟨i, t, ht, hne, hcount⟩
  have hline : (before ts i).line = k := hcount
  have hstop : stop < i := by
    by_cases hle : i ≤ stop
    · have := before_line_mono ts hle
      omega
    · omega
  have hji : j ≤ i := by
    by_cases hlt : i < j
    · exact absurd (hbreaks i t (by omega) hlt ht) hne
    · omega
  have hlength := (List.getElem?_eq_some_iff.1 ht).1
  refine ⟨_, List.getElem?_eq_getElem (show j < ts.length by omega), ?_⟩
  rw [← hline]
  exact before_line_mono ts hji

/-- If a line break or nothing follows, the first line below that is not blank is that of the next
    token. -/
theorem firstLineBelow_iff (h : Lexed.ofString script = .ok lexed) {j : Nat} (hj : stop ≤ j)
    (hend : lexed.tokens[j]? ≠ some .newline)
    (hbreaks : ∀ i t, stop ≤ i → i < j → lexed.tokens[i]? = some t → t = .newline)
    (hstop : ∀ t, lexed.tokens[stop]? = some t → t = .newline) (below : Nat) :
    FirstLineBelow script ((before lexed.tokens stop).line + 1) below ↔
      (∃ t, lexed.tokens[j]? = some t) ∧ below = (before lexed.tokens j).line + 1 := by
  have hstep : ∀ t, lexed.tokens[j]? = some t → (before lexed.tokens stop).line < (before lexed.tokens j).line := by
    intro t ht
    have hlength := (List.getElem?_eq_some_iff.1 ht).1
    have hnewline : lexed.tokens[stop]? = some .newline := by
      have hsome := List.getElem?_eq_getElem (show stop < lexed.tokens.length by omega)
      rw [hsome, hstop _ hsome]
    have hne : stop ≠ j := fun heq => hend (heq ▸ hnewline)
    have hmono := before_line_mono lexed.tokens (show stop + 1 ≤ j by omega)
    rw [before_line_succ, if_pos hnewline] at hmono
    omega
  constructor
  · intro hfirst
    rcases hfirst with ⟨hlt, hnot, hblank⟩
    obtain ⟨k, rfl⟩ := Nat.exists_eq_add_of_lt hlt
    have hbehind := (not_blankLine_iff h _).1 hnot
    obtain ⟨t, ht, hle⟩ := exists_of_tokenBehind hbreaks (by omega) hbehind
    refine ⟨⟨t, ht⟩, ?_⟩
    have hlt' := hstep t ht
    -- If it were not, the line of the next token would come first.
    by_cases heq : (before lexed.tokens j).line = (before lexed.tokens stop).line + 1 + k
    · omega
    · have hblank := hblank ((before lexed.tokens j).line + 1) (by omega) (by omega)
      have hne : t ≠ .newline := fun heq => hend (heq ▸ ht)
      exact absurd hblank ((not_blankLine_iff h _).2 ⟨j, t, ht, hne, rfl⟩)
  · intro hnext
    rcases hnext with ⟨⟨t, ht⟩, rfl⟩
    have hlt := hstep t ht
    have hne : t ≠ .newline := fun heq => hend (heq ▸ ht)
    refine ⟨by omega, (not_blankLine_iff h _).2 ⟨j, t, ht, hne, rfl⟩, fun k hk hkj => ?_⟩
    by_cases hblank : BlankLine script k
    · exact hblank
    · obtain ⟨m, rfl⟩ := Nat.exists_eq_add_of_lt hk
      have hbehind := (not_blankLine_iff h _).1 hblank
      obtain ⟨_, _, hle⟩ := exists_of_tokenBehind hbreaks (by omega) hbehind
      omega

theorem FunctionAt.bodyMayStart_iff (h : Lexed.ofString script = .ok lexed)
    (hfun : FunctionAt lexed.tokens head start stop) :
    bodyMayStart (some lexed.layout) (before lexed.tokens head) (before lexed.tokens start) = true ↔
      BodyDeeper script head start := by
  obtain ⟨hlt, hlt', hlength⟩ := hfun.lt
  have hnotEnd : ¬(before lexed.tokens start).atEnd = true := by
    rw [before_atEnd_iff, List.getElem?_eq_none_iff]
    omega
  rw [BodyDeeper, indentation_lineOf h (by omega), indentation_lineOf h (by omega), bodyMayStart]
  simp [hnotEnd]

theorem FunctionAt.bodyMayEnd_iff (h : Lexed.ofString script = .ok lexed)
    (hfun : FunctionAt lexed.tokens head start stop) :
    bodyMayEnd (some lexed.layout) (before lexed.tokens head) (before lexed.tokens stop) = true ↔
      lexed.tokens[stop]? = some (.mark .semicolon) ∨ BelowNotDeeper script head stop := by
  obtain ⟨hlt, hlt', hlength⟩ := hfun.lt
  obtain ⟨j, hskip, hj, hend, hbreaks⟩ := before_skipBreaks lexed.tokens stop
  have hlast : lineOf script (stop - 1) = (before lexed.tokens stop).line + 1 := by
    rw [lineOf_eq_before h (by omega), hfun.line_last]
  unfold bodyMayEnd
  rw [hskip]
  by_cases hsemicolon : lexed.tokens[stop]? = some (.mark .semicolon)
  · have hsame : j = stop := by
      by_cases heq : j = stop
      · exact heq
      · cases hbreaks stop _ (Nat.le_refl stop) (by omega) hsemicolon
    subst hsame
    exact iff_of_true (by simp) (.inl hsemicolon)
  · have hstop : ∀ t, lexed.tokens[stop]? = some t → t = .newline := by
      intro t ht
      have hsep := hfun.separator t ht
      simp only [Token.isSeparator, Bool.or_eq_true, decide_eq_true_eq] at hsep
      rcases hsep with hsep | rfl
      · exact hsep
      · exact absurd ht hsemicolon
    have hfirst := firstLineBelow_iff h hj hend hbreaks hstop
    cases hnext : lexed.tokens[j]? with
    | none =>
      refine iff_of_true (by simp [before_atEnd_iff.2 hnext]) (.inr fun below hbelow => ?_)
      rw [hlast] at hbelow
      obtain ⟨⟨t, ht⟩, -⟩ := (hfirst below).1 hbelow
      rw [hnext] at ht
      cases ht
    | some t =>
      have hbelow := (hfirst _).2 ⟨⟨t, hnext⟩, rfl⟩
      have hline : (before lexed.tokens j).line ≠ (before lexed.tokens stop).line := by
        have := hbelow.1
        omega
      have hnotEnd : ¬(before lexed.tokens j).atEnd = true := by simp [before_atEnd_iff, hnext]
      have hdeeper : BelowNotDeeper script head stop ↔
          (before lexed.tokens j).depth lexed.layout ≤ (before lexed.tokens head).depth lexed.layout := by
        rw [BelowNotDeeper, hlast, indentation_lineOf h (by omega)]
        constructor
        · intro hall
          have hle := hall _ hbelow
          rw [indentation_eq h] at hle
          exact hle
        · intro hle below hbelow
          obtain ⟨-, rfl⟩ := (hfirst below).1 hbelow
          rw [indentation_eq h]
          exact hle
      rw [hdeeper]
      simp [hline, hnotEnd, hsemicolon]

theorem FunctionAt.laidOut_iff (h : Lexed.ofString script = .ok lexed)
    (hfun : FunctionAt lexed.tokens head start stop) :
    LaidOut (some lexed.layout) (before lexed.tokens head) (before lexed.tokens start) (before lexed.tokens stop) ↔
      (lineOf script head < lineOf script start → BodyDeeper script head start ∧
        (lexed.tokens[stop]? = some (.mark .semicolon) ∨ BelowNotDeeper script head stop)) := by
  obtain ⟨hlt, hlt', hlength⟩ := hfun.lt
  have hmono := before_line_mono lexed.tokens (Nat.le_of_lt hlt)
  have hhead := lineOf_eq_before h (show head < lexed.tokens.length by omega)
  have hstart := lineOf_eq_before h (show start < lexed.tokens.length by omega)
  rw [LaidOut, hfun.bodyMayStart_iff h, hfun.bodyMayEnd_iff h]
  constructor
  · intro hlaid hbelow
    rcases hlaid with hline | hboth
    · omega
    · exact hboth
  · intro himp
    by_cases hline : (before lexed.tokens start).line = (before lexed.tokens head).line
    · exact .inl hline
    · exact .inr (himp (by omega))

/-! ## Scripts -/

/-- A script is accepted when the grammar has it and each function whose body starts below the line of
    its `def` is indented: the body is deeper, and the next line below it is not, unless a semicolon
    follows the body. -/
theorem compile_accepts_iff (script : String) :
    (∃ text, (compile script).result = .ok text) ↔
      ∃ lexed program, Lexed.ofString script = .ok lexed ∧ Program.ofTokens none lexed.tokens = .ok program ∧
        ∀ head, lexed.tokens[head]? = some (.word .defWord) →
          ∃ start stop, FunctionAt lexed.tokens head start stop ∧
            (lineOf script head < lineOf script start → BodyDeeper script head start ∧
              (lexed.tokens[stop]? = some (.mark .semicolon) ∨ BelowNotDeeper script head stop)) := by
  constructor
  · intro haccepted
    rcases haccepted with ⟨text, htext⟩
    obtain ⟨lexed, program, hlex, hp, -⟩ := compile_result_eq_ok.1 htext
    obtain ⟨hd, hall⟩ := Program.ofTokens_eq_ok_iff_laidOut.1 hp
    refine ⟨lexed, program, hlex, hd.ofTokens, fun head hdef => ?_⟩
    obtain ⟨start, stop, hfun, hlaid⟩ := hall head hdef
    exact ⟨start, stop, hfun, (hfun.laidOut_iff hlex).1 hlaid⟩
  · intro hlaid
    rcases hlaid with ⟨lexed, program, hlex, hp, hall⟩
    refine ⟨_, compile_result_eq_ok.2 ⟨lexed, program, hlex, ?_, rfl⟩⟩
    refine Program.ofTokens_eq_ok_iff_laidOut.2 ⟨Program.derives_of_ofTokens hp, fun head hdef => ?_⟩
    obtain ⟨start, stop, hfun, hlaid⟩ := hall head hdef
    exact ⟨start, stop, hfun, (hfun.laidOut_iff hlex).2 hlaid⟩

/-- The line below the body is deeper than the `def`, and nothing is said about it. -/
theorem a_semicolon_hides_a_deeper_line :
    let script := "def f():\n  1; 2\n  3"
    (compile script).result = .ok "int f() \x7b 1; \x7d; 2; 3;" ∧
      ∃ lexed, Lexed.ofString script = .ok lexed ∧ FunctionAt lexed.tokens 0 6 7 ∧
        lineOf script 0 < lineOf script 6 ∧ ¬BelowNotDeeper script 0 7 := by
  intro script
  let tokens : List Token :=
    [.word .defWord, .name "f", .mark .openParen, .mark .closeParen, .mark .colon, .newline, .number 1,
      .mark .semicolon, .number 2, .newline, .number 3]
  have hlex : Lexed.ofString script = .ok ⟨tokens, ⟨[0, 2, 2]⟩⟩ := Except.eq_ok_of_toOption (by decide +kernel)
  have hhead : lineOf script 0 = 1 := lineOf_eq hlex (by decide)
  have hstart : lineOf script 6 = 2 := lineOf_eq hlex (by decide)
  refine ⟨Except.eq_ok_of_toOption (by decide +kernel), _, hlex, ?_, by omega, ?_⟩
  · have hone : Expr.Derives (.whole .conditional) ([.number 1] ++ [] ++ []) (.number 1) :=
      .always (.alone (.sum (.product (.number 1) (.done _ _)) (.done _ _)))
    have hbreaks : ∀ t ∈ [Token.newline], t = .newline := by simp
    refine @FunctionAt.intro tokens 0 6 7 "f" [] [.newline] [.number 1] (.expr (.number 1)) ⟨rfl, rfl, rfl⟩ hbreaks
      ⟨rfl, rfl, rfl⟩ (.expr hone) ?_
    intro u hu
    cases hu
    rfl
  · intro hall
    have hnot : ¬BlankLine script 3 := (not_blankLine_iff hlex 2).2 ⟨10, .number 3, rfl, by simp, rfl⟩
    have hbelow : FirstLineBelow script (lineOf script (7 - 1)) 3 := by
      rw [hstart]
      exact ⟨by omega, hnot, fun k hk hk' => by omega⟩
    have hle := hall 3 hbelow
    rw [hhead, indentation_eq hlex 2, indentation_eq hlex 0] at hle
    exact absurd hle (by decide)

end ScriptToC
