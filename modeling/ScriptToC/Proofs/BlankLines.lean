/-
  ScriptToC.Proofs.BlankLines — one more blank line changes nothing but the places behind it
  (`compile_blank_line`).

  The text with the line has one more token, a line break behind another one, and one more entry in its
  layout. Reading the two goes in lockstep, at the same index up to there and one token further behind it
  (`OneLineMore`). Runs of line breaks are always passed over whole, so none is stopped at in between.
-/

import ScriptToC.Proofs.BadLexemes
import ScriptToC.Proofs.Joining
import ScriptToC.Proofs.LineNumbers
import ScriptToC.Proofs.Lockstep

namespace ScriptToC

open Cursor

/-! ## A bad lexeme in one of two texts that a line break joins -/

/-- Behind a line break it does not matter what the column was. -/
theorem Place.after_join (first front : List Char) :
    Place.start.after (first ++ '\n' :: front) =
      ⟨(Place.start.after front).line + (first.count '\n' + 1), (Place.start.after front).column⟩ := by
  have hline : (Place.start.after first).line = 1 + first.count '\n' := Place.line_after _ _
  have hnext : (Place.start.after first).next '\n' = ⟨1 + first.count '\n' + 1, 1⟩ := by
    rw [Place.next, if_pos rfl, hline]
  rw [Place.after_append, Place.after_cons, hnext, Place.after_eq_movedTo, Place.after_start front, Place.movedTo,
    Place.mk.injEq]
  dsimp only
  refine ⟨by omega, ?_⟩
  split
  · omega
  · rfl

theorem StopsAt.join_left {text front x rest : List Char} (h : StopsAt text front x rest) (second : List Char) :
    StopsAt (text ++ '\n' :: second) front x (rest ++ '\n' :: second) := by
  rcases h with ⟨rfl, hcut, hapart, hx⟩
  refine ⟨by simp, hcut, hapart, hx.before (fun d hd => ?_)⟩
  rcases rest with _ | ⟨c, rest⟩
  · cases hd
    exact .inr (by decide)
  · exact .inl hd

theorem StopsAt.join_right {first text front x rest : List Char} {ts : List Token} (hfirst : Tokenizes first ts)
    (h : StopsAt text front x rest) : StopsAt (first ++ '\n' :: text) (first ++ '\n' :: front) x rest := by
  rcases h with ⟨rfl, ⟨us, hus⟩, hapart, hx⟩
  refine ⟨by simp, ⟨_, hfirst.join hus⟩, (standsApart_append_iff (by simp) x).2 ?_, hx⟩
  by_cases hnil : front = []
  · subst hnil
    intro _ c hc
    cases hc
    rfl
  · rw [← List.singleton_append]
    exact (standsApart_append_iff hnil x).2 hapart

variable {first second : String} {l m : Lexed} {e : BadLexeme}

theorem Lexed.ofString_join_of_error (h : Lexed.ofString first = .error e) (second : String) :
    Lexed.ofString (first ++ "\n" ++ second) = .error e := by
  obtain ⟨front, x, rest, hstops, rfl⟩ := Lexed.ofString_eq_error_iff.1 h
  refine Lexed.ofString_eq_error_iff.2 ⟨front, x, rest ++ '\n' :: second.toList, ?_, rfl⟩
  simpa using hstops.join_left second.toList

/-- It stands as many lines further down as the first text has. -/
theorem Lexed.ofString_join_of_error_below (h : Lexed.ofString first = .ok l) (h' : Lexed.ofString second = .error e) :
    Lexed.ofString (first ++ "\n" ++ second) =
      .error ⟨e.spelling, e.place.line + (first.toList.count '\n' + 1), e.place.column⟩ := by
  obtain ⟨front, x, rest, hstops, rfl⟩ := Lexed.ofString_eq_error_iff.1 h'
  refine Lexed.ofString_eq_error_iff.2 ⟨first.toList ++ '\n' :: front, x, rest, ?_, ?_⟩
  · simpa using hstops.join_right (Lexed.ofString_eq_ok_iff.1 h).tokenizes
  · rw [Place.after_join]

/-! ## One line break more among the tokens -/

/-- What is read of a blank line. -/
def Lexed.blankLine (depth : Nat) : Lexed := ⟨[], ⟨[depth]⟩⟩

theorem Lexed.ofString_blanks {blanks : String} (h : ∀ c ∈ blanks.toList, isBlank c = true) :
    Lexed.ofString blanks = .ok (.blankLine blanks.toList.length) :=
  Lexed.ofString_eq_ok_iff.2 (.blanks h)

/-- The cursors in two joined texts and in these with a blank line between them. -/
inductive OneLineMore (l m : Lexed) (depth : Nat) : Cursor → Cursor → Prop
  | ahead {i : Nat} : i ≤ l.tokens.length →
      OneLineMore l m depth (before (l.join m).tokens i) (before ((l.join (.blankLine depth)).join m).tokens i)
  | behind (i : Nat) :
      OneLineMore l m depth (before (l.join m).tokens (l.front.length + i))
        (before ((l.join (.blankLine depth)).join m).tokens ((l.join (.blankLine depth)).front.length + i))

theorem Lexed.Complete.join (h : l.Complete) (h' : m.Complete) : (l.join m).Complete := by
  show (l.layout.depths ++ m.layout.depths).length = (l.tokens ++ .newline :: m.tokens).count .newline + 1
  rw [List.length_append, List.count_append, List.count_cons_self, h, h']
  omega

theorem Lexed.breaks_front {i : Nat} (hi : i ≤ l.tokens.length) (h : ∀ t ∈ l.tokens.drop i, t = .newline) :
    ∀ t ∈ l.front.drop i, t = .newline := by
  rw [Lexed.front, List.drop_append_of_le_length hi]
  simpa [or_imp, forall_and] using h

theorem Lexed.behindBreaks_join_of_breaks {i : Nat} (hi : i ≤ l.tokens.length)
    (h : ∀ t ∈ l.tokens.drop i, t = .newline) (m : Lexed) :
    behindBreaks (l.join m).tokens i = l.front.length + behindBreaks m.tokens 0 := by
  have hle := Lexed.length_front l
  rw [Lexed.tokens_join, behindBreaks_breaks (by omega) (Lexed.breaks_front hi h)]

namespace OneLineMore

variable {depth : Nat} {c c' d d' : Cursor}

theorem tokens_eq (l m : Lexed) (depth : Nat) :
    ((l.join (.blankLine depth)).join m).tokens = l.tokens ++ .newline :: .newline :: m.tokens := by
  simp [Lexed.join, Lexed.blankLine]

theorem index (h : OneLineMore l m depth c d) : d.index = c.index ∨ d.index = c.index + 1 := by
  cases h with
  | ahead _ => exact .inl rfl
  | behind i =>
    right
    show (l.join (.blankLine depth)).front.length + i = l.front.length + i + 1
    rw [Lexed.length_front, Lexed.length_front, Lexed.length_join]
    show l.front.length + 0 + 1 + i = _
    rw [Lexed.length_front]
    omega

theorem head (h : OneLineMore l m depth c d) : c.rest.head? = d.rest.head? := by
  cases h with
  | ahead hi =>
    rw [tokens_eq, before_append_rest hi, List.head?_append]
    show (before (l.tokens ++ .newline :: m.tokens) _).rest.head? = _
    rw [before_append_rest hi, List.head?_append]
    rfl
  | behind i => rw [Lexed.tokens_join, Lexed.tokens_join, before_front_rest, before_front_rest]

/-- The token is not the first of the line breaks, so both stay on the same side. -/
theorem next (h : OneLineMore l m depth c d) {t : Token} (ht : t ≠ .newline) (hp : c.Passes [t] c')
    (hp' : d.Passes [t] d') : OneLineMore l m depth c' d' := by
  cases h with
  | @ahead i hi =>
    have hlt : i < l.tokens.length := by
      by_cases heq : i = l.tokens.length
      · have hhead : (before (l.tokens ++ .newline :: m.tokens) i).rest.head? = some t := hp.head?
        rw [before_append_rest hi, before, heq, List.drop_length] at hhead
        exact absurd (Option.some.inj hhead).symm ht
      · omega
    rw [hp.eq_before, hp'.eq_before, hp.index, hp'.index]
    exact .ahead hlt
  | behind i =>
    rw [hp.eq_before, hp'.eq_before, hp.index, hp'.index]
    exact .behind (i + 1)

theorem breaks (h : OneLineMore l m depth c d) : OneLineMore l m depth c.skipBreaks d.skipBreaks := by
  cases h with
  | @ahead i hi =>
    rw [before_skipBreaks_eq, before_skipBreaks_eq]
    by_cases hall : ∀ t ∈ l.tokens.drop i, t = .newline
    · -- The line breaks behind the first text are passed over with the rest of it.
      have hlength := Lexed.length_front l
      have htokens : (l.join (.blankLine depth)).tokens = l.front := rfl
      have hleft := Lexed.behindBreaks_join_of_breaks hi hall m
      have hright := Lexed.behindBreaks_join_of_breaks (l := l.join (.blankLine depth)) (by rw [htokens]; omega)
        (Lexed.breaks_front hi hall) m
      rw [hleft, hright]
      exact .behind _
    · have hlt := behindBreaks_lt hall
      have hleft : behindBreaks (l.join m).tokens i = behindBreaks l.tokens i := behindBreaks_append hall _
      have hright : behindBreaks ((l.join (.blankLine depth)).join m).tokens i = behindBreaks l.tokens i := by
        rw [tokens_eq, behindBreaks_append hall]
      rw [hleft, hright]
      exact .ahead (Nat.le_of_lt hlt)
  | behind i =>
    rw [before_skipBreaks_eq, before_skipBreaks_eq, Lexed.tokens_join, Lexed.tokens_join, behindBreaks_front,
      behindBreaks_front, ← Lexed.tokens_join, ← Lexed.tokens_join]
    exact .behind _

/-- Lines in front of the blank one and lines behind it are as deep as before. -/
theorem depth_eq (hl : l.Complete) (h : OneLineMore l m depth c d) :
    c.depth (l.join m).layout = d.depth ((l.join (.blankLine depth)).join m).layout := by
  have hmiddle : (l.join (.blankLine depth)).Complete := hl.join rfl
  cases h with
  | @ahead i hi =>
    have hle : i ≤ (l.join (.blankLine depth)).tokens.length := by
      rw [Lexed.length_join, Lexed.length_front]
      omega
    exact (depthAt_join_left hl hi).trans ((depthAt_join_left hmiddle hle).trans (depthAt_join_left hl hi)).symm
  | behind i => exact (depthAt_join_right hl i).trans (depthAt_join_right hmiddle i).symm

theorem lockstep (hl : l.Complete) (m : Lexed) (depth : Nat) :
    Lockstep (some (l.join m).layout) (some ((l.join (.blankLine depth)).join m).layout) (OneLineMore l m depth) where
  head h := h.head
  next h ht hp hp' := h.next ht hp hp'
  breaks h := h.breaks
  deeper h h' _ _ := by rw [Option.map_some, Option.map_some, h.depth_eq hl, h'.depth_eq hl]

end OneLineMore

/-! ## Results -/

/-- The same text, or errors that differ by one line or one token at most. -/
inductive OneFurther : Except Rejection String → Except Rejection String → Prop
  | text (text : String) : OneFurther (.ok text) (.ok text)
  | lexeme {spelling : String} {line line' column : Nat} : line' = line ∨ line' = line + 1 →
      OneFurther (.error (.lexeme ⟨spelling, line, column⟩)) (.error (.lexeme ⟨spelling, line', column⟩))
  | token {expected : Expectation} {found : Option Token} {position position' : Nat} :
      position' = position ∨ position' = position + 1 →
      OneFurther (.error (.token ⟨expected, found, position⟩)) (.error (.token ⟨expected, found, position'⟩))

theorem compile_of_badLexeme {script : String} (h : Lexed.ofString script = .error e) :
    (compile script).result = .error (.lexeme e) := by
  simp [compile, h]

theorem compile_of_program {script : String} {lexed : Lexed} {p : Program} (h : Lexed.ofString script = .ok lexed)
    (hp : Program.ofTokens (some lexed.layout) lexed.tokens = .ok p) :
    (compile script).result = .ok (Code.ofProgram p).text :=
  compile_result_eq_ok.2 ⟨lexed, p, h, hp, rfl⟩

theorem OneLineMore.oneFurther {script script' : String} {depth : Nat} (hl : l.Complete)
    (h : Lexed.ofString script = .ok (l.join m))
    (h' : Lexed.ofString script' = .ok ((l.join (.blankLine depth)).join m)) :
    OneFurther (compile script).result (compile script').result := by
  have hstart : OneLineMore l m depth (start (l.join m).tokens) (start ((l.join (.blankLine depth)).join m).tokens) := by
    rw [start_eq_before, start_eq_before]
    exact .ahead (Nat.zero_le _)
  rcases (OneLineMore.lockstep hl m depth).ofTokens hstart with ⟨p, hp, hp'⟩ | ⟨c, d, x, hcd, he, he'⟩
  · rw [compile_of_program h hp, compile_of_program h' hp']
    exact .text _
  · rw [compile_error h he, compile_error h' he']
    show OneFurther (.error (.token ⟨x, c.rest.head?, c.index⟩)) (.error (.token ⟨x, d.rest.head?, d.index⟩))
    rw [← hcd.head]
    exact .token hcd.index

/-- One more blank line, wherever a line ends, does not matter. -/
theorem compile_blank_line {blanks : String} (h : ∀ c ∈ blanks.toList, isBlank c = true) (first second : String) :
    OneFurther (compile (first ++ "\n" ++ second)).result
      (compile (first ++ "\n" ++ blanks ++ "\n" ++ second)).result := by
  cases hfirst : Lexed.ofString first with
  | error e =>
    have hmiddle := Lexed.ofString_join_of_error hfirst blanks
    rw [compile_of_badLexeme (Lexed.ofString_join_of_error hfirst second),
      compile_of_badLexeme (Lexed.ofString_join_of_error hmiddle second)]
    exact .lexeme (.inl rfl)
  | ok l =>
    have hmiddle := Lexed.ofString_join hfirst (Lexed.ofString_blanks h)
    cases hsecond : Lexed.ofString second with
    | error e =>
      rw [compile_of_badLexeme (Lexed.ofString_join_of_error_below hfirst hsecond),
        compile_of_badLexeme (Lexed.ofString_join_of_error_below hmiddle hsecond)]
      have hblanks : blanks.toList.count '\n' = 0 := List.count_eq_zero.2 (not_break_of_isBlank h)
      have hcount : (first ++ "\n" ++ blanks).toList.count '\n' = first.toList.count '\n' + 1 := by
        simp [hblanks]
      rw [hcount]
      exact .lexeme (.inr rfl)
    | ok m =>
      exact OneLineMore.oneFurther (Lexed.complete_of_ofString hfirst) (Lexed.ofString_join hfirst hsecond)
        (Lexed.ofString_join hmiddle hsecond)

/-- Between the colon of a function and its body, in front of an operand that is missing. -/
theorem a_blank_line_in_front_of_a_body :
    (compile ("def f(a):" ++ "\n" ++ "  a +")).result = .error (.token ⟨.expression, none, 9⟩) ∧
      OneFurther (compile ("def f(a):" ++ "\n" ++ "  a +")).result
        (compile ("def f(a):" ++ "\n" ++ " \t " ++ "\n" ++ "  a +")).result ∧
      (compile ("def f(a):" ++ "\n" ++ " \t " ++ "\n" ++ "  a +")).result = .error (.token ⟨.expression, none, 10⟩) :=
  ⟨by decide +kernel, compile_blank_line (List.all_eq_true.1 rfl) _ _, by decide +kernel⟩

end ScriptToC
