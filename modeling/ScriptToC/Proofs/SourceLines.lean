/-
  ScriptToC.Proofs.SourceLines — the lines of a text, and the tokens that stand on them.

  Lines are cut out of the text itself, and the line of a token is that of the place where its
  lexeme starts. Reading tokens knows neither. It has line breaks among the tokens and a layout, and
  these tell the same: `lineOf_eq`, `indentation_eq`, `not_blankLine_iff`.
-/

import ScriptToC.Proofs.Lexing

namespace ScriptToC

/-! ## Lines of a text -/

/-- Lines count from one, as places do. A line that the text does not have is empty. -/
def lineText (script : String) (line : Nat) : List Char := (script.toList.splitOn '\n')[line - 1]?.getD []

def leadingBlanks (line : List Char) : Nat := (line.takeWhile isBlank).length

def indentation (script : String) (line : Nat) : Nat := leadingBlanks (lineText script line)

def BlankLine (script : String) (line : Nat) : Prop := ∀ c ∈ lineText script line, isBlank c = true

/-- The first line below another that is not blank. -/
def FirstLineBelow (script : String) (line below : Nat) : Prop :=
  line < below ∧ ¬BlankLine script below ∧ ∀ k, line < k → k < below → BlankLine script k

/-! ## Places of the lexemes -/

/-- The places where the lexemes of a source start. -/
def Source.places (s : Source) : List Place :=
  let place := s.place.after (s.rest.takeWhile isBlank)
  match _h : s.rest.dropWhile isBlank with
  | [] => []
  | c :: tail => place :: Source.places ⟨(munch c tail).2, place.after (munch c tail).1⟩
termination_by s.rest.length
decreasing_by
  have := munch_shorter c tail
  have := congrArg List.length (List.takeWhile_append_dropWhile (p := isBlank) (l := s.rest))
  simp_all only [List.length_append, List.length_cons]
  omega

/-- The line on which a token stands. -/
def lineOf (script : String) (i : Nat) : Nat := ((Source.ofString script).places[i]?.map Place.line).getD 0

theorem Source.places_cons {blanks tail : List Char} {c : Char} {p : Place} (h : ∀ b ∈ blanks, isBlank b = true)
    (hc : isBlank c = false) :
    Source.places ⟨blanks ++ c :: tail, p⟩ =
      p.after blanks :: Source.places ⟨(munch c tail).2, (p.after blanks).after (munch c tail).1⟩ := by
  rw [places]
  split
  · rename_i hnil
    rw [dropWhile_isBlank h hc] at hnil
    cases hnil
  · rename_i c' tail' hcons
    rw [dropWhile_isBlank h hc] at hcons
    cases hcons
    simp only [takeWhile_isBlank h hc]

theorem Place.line_after (p : Place) (text : List Char) : (p.after text).line = p.line + text.count '\n' := by
  induction text generalizing p with
  | nil => rfl
  | cons c text ih =>
    rw [Place.after_cons, ih, Place.next]
    by_cases hc : c = '\n'
    · rw [if_pos hc, hc, List.count_cons_self]
      dsimp only
      omega
    · rw [if_neg hc, List.count_cons_of_ne hc]

theorem Place.line_after_blanks (p : Place) {blanks : List Char} (h : ∀ b ∈ blanks, isBlank b = true) :
    (p.after blanks).line = p.line := by
  rw [Place.line_after, List.count_eq_zero.2 (not_break_of_isBlank h), Nat.add_zero]

/-! ## What the tokens and the layout know of the lines -/

theorem splitOn_append {a : Char} {cs : List Char} (h : a ∉ cs) (rest : List Char) :
    (cs ++ rest).splitOn a = (rest.splitOn a).modifyHead (cs ++ ·) := by
  induction cs with
  | nil =>
    obtain ⟨line, lines, hlines⟩ := List.exists_cons_of_ne_nil (List.splitOn_ne_nil a rest)
    simp [hlines]
  | cons c cs ih =>
    obtain ⟨hc, hcs⟩ := List.ne_and_not_mem_of_not_mem_cons h
    obtain ⟨line, lines, hlines⟩ := List.exists_cons_of_ne_nil (List.splitOn_ne_nil a rest)
    rw [List.cons_append, List.splitOn_cons_eq_if_modifyHead, if_neg (by simpa using fun h => hc h.symm), ih hcs]
    simp [hlines]

theorem splitOn_breaks {blanks : List Char} (h : ∀ b ∈ blanks, isBlank b = true) (tail : List Char) :
    (blanks ++ '\n' :: tail).splitOn '\n' = blanks :: tail.splitOn '\n' := by
  rw [splitOn_append (not_break_of_isBlank h), List.splitOn_cons_eq_if_modifyHead]
  simp

/-- A lexeme stands on one line. -/
theorem splitOn_lexeme {blanks tail : List Char} {c : Char} (h : ∀ b ∈ blanks, isBlank b = true)
    (hbreak : '\n' ∉ (munch c tail).1) :
    ∃ line lines, (munch c tail).2.splitOn '\n' = line :: lines ∧
      (blanks ++ c :: tail).splitOn '\n' = (blanks ++ (munch c tail).1 ++ line) :: lines := by
  obtain ⟨line, lines, hlines⟩ := List.exists_cons_of_ne_nil (List.splitOn_ne_nil '\n' (munch c tail).2)
  refine ⟨line, lines, hlines, ?_⟩
  have hnone : '\n' ∉ blanks ++ (munch c tail).1 := by
    intro hmem
    rcases List.mem_append.1 hmem with hmem | hmem
    · exact not_break_of_isBlank h hmem
    · exact hbreak hmem
  rw [← munch_append, ← List.append_assoc, splitOn_append hnone, hlines]
  rfl

theorem leadingBlanks_blanks {blanks : List Char} (h : ∀ b ∈ blanks, isBlank b = true) :
    leadingBlanks blanks = blanks.length := by
  rw [leadingBlanks, takeWhile_blanks h]

theorem leadingBlanks_lexeme {blanks : List Char} {c : Char} (h : ∀ b ∈ blanks, isBlank b = true)
    (hc : isBlank c = false) (tail line : List Char) :
    leadingBlanks (blanks ++ (munch c tail).1 ++ line) = blanks.length := by
  obtain ⟨w, hw⟩ := munch_head c tail
  rw [hw, List.append_assoc, List.cons_append, leadingBlanks, takeWhile_isBlank h hc]

/-- The layout has the leading blanks of the lines that start in the text. -/
theorem Scanned.depths {lineStart : Bool} {cs : List Char} {l : Lexed} (h : Scanned lineStart cs l) :
    l.layout.depths =
      if lineStart then (cs.splitOn '\n').map leadingBlanks else ((cs.splitOn '\n').map leadingBlanks).tail := by
  induction h with
  | @blanks lineStart blanks hblanks =>
    rw [List.splitOn_eq_singleton (not_break_of_isBlank hblanks)]
    cases lineStart <;> simp [leadingBlanks_blanks hblanks]
  | @newline lineStart blanks tail l hblanks _ ih =>
    rw [splitOn_breaks hblanks, Lexed.prepend, ih]
    cases lineStart <;> simp [leadingBlanks_blanks hblanks]
  | @lexeme lineStart blanks c tail t l hblanks hc ht hne _ ih =>
    obtain ⟨line, lines, hrest, hlines⟩ := splitOn_lexeme hblanks (not_break_of_ne_newline ht hne)
    have hfirst := leadingBlanks_lexeme hblanks hc tail line
    rw [hlines, Lexed.prepend, ih, hrest, List.map_cons, List.map_cons, hfirst]
    cases lineStart <;> simp

theorem Scanned.places {lineStart : Bool} {cs : List Char} {l : Lexed} (h : Scanned lineStart cs l) :
    ∀ (p : Place) (i : Nat), i < l.tokens.length → ∃ q, (Source.places ⟨cs, p⟩)[i]? = some q ∧
      q.line = p.line + (l.tokens.take i).count .newline := by
  induction h with
  | blanks hblanks =>
    intro p i hi
    cases hi
  | @newline _ blanks tail l hblanks _ ih =>
    intro p i hi
    have hplace := p.line_after_blanks hblanks
    rw [Source.places_cons hblanks rfl, munch_break]
    rcases i with _ | i
    · exact ⟨_, rfl, hplace⟩
    · obtain ⟨q, hq, hline⟩ := ih ((p.after blanks).after ['\n']) i (Nat.lt_of_succ_lt_succ hi)
      refine ⟨q, hq, ?_⟩
      rw [hline, Place.line_after, hplace, Lexed.prepend, List.take_succ_cons, List.count_cons_self]
      simp
      omega
  | @lexeme _ blanks c tail t l hblanks hc ht hne _ ih =>
    intro p i hi
    have hplace := p.line_after_blanks hblanks
    rw [Source.places_cons hblanks hc]
    rcases i with _ | i
    · exact ⟨_, rfl, hplace⟩
    · obtain ⟨q, hq, hline⟩ := ih ((p.after blanks).after (munch c tail).1) i (Nat.lt_of_succ_lt_succ hi)
      refine ⟨q, hq, ?_⟩
      rw [hline, Place.line_after, hplace, List.count_eq_zero.2 (not_break_of_ne_newline ht hne), Lexed.prepend,
        List.take_succ_cons, List.count_cons_of_ne hne]
      rfl

/-- Whether a token stands behind this number of line breaks, other than a line break. -/
def TokenBehind (ts : List Token) (breaks : Nat) : Prop :=
  ∃ i t, ts[i]? = some t ∧ t ≠ .newline ∧ (ts.take i).count .newline = breaks

theorem tokenBehind_newline_zero (ts : List Token) : ¬TokenBehind (.newline :: ts) 0 := by
  intro htoken
  rcases htoken with ⟨i, t, ht, hne, hcount⟩
  rcases i with _ | i
  · exact hne (Option.some.inj ht).symm
  · simp at hcount

theorem tokenBehind_newline_succ {ts : List Token} {k : Nat} :
    TokenBehind (.newline :: ts) (k + 1) ↔ TokenBehind ts k := by
  constructor
  · intro htoken
    rcases htoken with ⟨i, t, ht, hne, hcount⟩
    rcases i with _ | i
    · exact absurd (Option.some.inj ht).symm hne
    · exact ⟨i, t, ht, hne, by simpa using hcount⟩
  · intro htoken
    rcases htoken with ⟨i, t, ht, hne, hcount⟩
    exact ⟨i + 1, t, ht, hne, by simpa using hcount⟩

theorem tokenBehind_cons_zero {ts : List Token} {t : Token} (hne : t ≠ .newline) : TokenBehind (t :: ts) 0 :=
  ⟨0, t, rfl, hne, rfl⟩

theorem tokenBehind_cons_succ {ts : List Token} {t : Token} {k : Nat} (hne : t ≠ .newline) :
    TokenBehind (t :: ts) (k + 1) ↔ TokenBehind ts (k + 1) := by
  constructor
  · intro htoken
    rcases htoken with ⟨i, u, hu, hne', hcount⟩
    rcases i with _ | i
    · cases hcount
    · exact ⟨i, u, hu, hne', by simpa [List.count_cons_of_ne hne] using hcount⟩
  · intro htoken
    rcases htoken with ⟨i, u, hu, hne', hcount⟩
    exact ⟨i + 1, u, hu, hne', by simpa [List.count_cons_of_ne hne] using hcount⟩

/-- The lines that are not blank are those with a token. -/
theorem Scanned.line_iff {lineStart : Bool} {cs : List Char} {l : Lexed} (h : Scanned lineStart cs l) :
    ∀ k, (∃ line, (cs.splitOn '\n')[k]? = some line ∧ ¬∀ c ∈ line, isBlank c = true) ↔ TokenBehind l.tokens k := by
  induction h with
  | blanks hblanks =>
    intro k
    rw [List.splitOn_eq_singleton (not_break_of_isBlank hblanks)]
    refine iff_of_false ?_ (by simp [TokenBehind])
    intro hline
    rcases hline with ⟨line, hline, hnot⟩
    rw [List.mem_singleton.1 (List.mem_of_getElem? hline)] at hnot
    exact hnot hblanks
  | newline hblanks _ ih =>
    intro k
    rw [splitOn_breaks hblanks]
    rcases k with _ | k
    · refine iff_of_false ?_ (tokenBehind_newline_zero _)
      intro hline
      rcases hline with ⟨line, hline, hnot⟩
      rw [← Option.some.inj hline] at hnot
      exact hnot hblanks
    · exact (ih k).trans tokenBehind_newline_succ.symm
  | @lexeme _ blanks c tail t l hblanks hc ht hne _ ih =>
    intro k
    obtain ⟨line, lines, hrest, hlines⟩ := splitOn_lexeme hblanks (not_break_of_ne_newline ht hne)
    rw [hlines]
    rcases k with _ | k
    · refine iff_of_true ⟨_, rfl, fun hall => ?_⟩ (tokenBehind_cons_zero hne)
      obtain ⟨w, hw⟩ := munch_head c tail
      rw [hall c (by simp [hw])] at hc
      cases hc
    · have hih := ih (k + 1)
      rw [hrest] at hih
      exact hih.trans (tokenBehind_cons_succ hne).symm

/-! ## A text that is read -/

variable {script : String} {lexed : Lexed}

theorem lineOf_eq (h : Lexed.ofString script = .ok lexed) {i : Nat} (hi : i < lexed.tokens.length) :
    lineOf script i = (lexed.tokens.take i).count .newline + 1 := by
  obtain ⟨q, hq, hline⟩ := (Lexed.ofString_eq_ok_iff.1 h).places Place.start i hi
  rw [lineOf, Source.ofString, hq]
  simp only [Option.map_some, Option.getD_some, hline, Place.start]
  omega

theorem Lexed.depths_eq (h : Lexed.ofString script = .ok lexed) :
    lexed.layout.depths = (script.toList.splitOn '\n').map leadingBlanks := by
  rw [(Lexed.ofString_eq_ok_iff.1 h).depths, if_pos rfl]

theorem indentation_eq (h : Lexed.ofString script = .ok lexed) (k : Nat) :
    indentation script (k + 1) = lexed.layout.depth k := by
  rw [Layout.depth, Lexed.depths_eq h, List.getElem?_map, indentation, lineText, Nat.add_sub_cancel]
  cases (script.toList.splitOn '\n')[k]? <;> rfl

theorem not_blankLine_iff (h : Lexed.ofString script = .ok lexed) (k : Nat) :
    ¬BlankLine script (k + 1) ↔ TokenBehind lexed.tokens k := by
  rw [← (Lexed.ofString_eq_ok_iff.1 h).line_iff, BlankLine, lineText, Nat.add_sub_cancel]
  cases (script.toList.splitOn '\n')[k]? <;> simp

end ScriptToC
