/-
  ScriptToC.Proofs.LineNumbers — lines are counted three times over, and alike.

  A text has its line breaks, the layout has one entry for each line, and a cursor counts the line
  breaks among the tokens before it. A line break is a token wherever it stands, so the line of a
  cursor is the one where the lexeme of its token lies in the text: `layout_tells_the_lines`.
-/

import ScriptToC.Proofs.JoinedTokens
import ScriptToC.Proofs.MaximalMunch

namespace ScriptToC

open Cursor

/-! ## Line breaks of a text that is cut -/

theorem Token.Spelt.no_break {t : Token} {w : List Char} (h : t.Spelt w) (ht : t ≠ .newline) : '\n' ∉ w := by
  obtain ⟨c, v, rfl, hmunch⟩ := h.munch (fun d (hd : d ∈ [].head?) => nomatch hd)
  have hspelling : Token.ofSpelling? (ScriptToC.munch c (v ++ [])).1 = some t := by
    rw [hmunch]
    exact h.ofSpelling?
  have hnone := not_break_of_ne_newline hspelling ht
  rwa [hmunch] at hnone

theorem Token.Spelt.count_break {t : Token} {w : List Char} (h : t.Spelt w) : w.count '\n' = [t].count .newline := by
  by_cases ht : t = .newline
  · subst ht
    cases h
    rfl
  · rw [List.count_eq_zero.2 (h.no_break ht), List.count_singleton, if_neg (by simpa using ht)]

theorem Tokenizes.join {cs ds : List Char} {ts us : List Token} (h : Tokenizes cs ts) (h' : Tokenizes ds us) :
    Tokenizes (cs ++ '\n' :: ds) (ts ++ .newline :: us) := by
  obtain ⟨layout, hscanned⟩ := h.scanned true
  obtain ⟨layout', hscanned'⟩ := h'.scanned true
  exact (hscanned.join hscanned').tokenizes

/-- No lexeme goes over a line break. -/
theorem Tokenizes.split {first rest : List Char} {ts : List Token} (hfirst : '\n' ∉ first)
    (h : Tokenizes (first ++ '\n' :: rest) ts) :
    ∃ us vs, ts = us ++ .newline :: vs ∧ Tokenizes first us ∧ Tokenizes rest vs := by
  generalize htext : first ++ '\n' :: rest = text at h
  induction h generalizing first with
  | nil => simp at htext
  | blank hb _ ih =>
    rcases first with _ | ⟨c, first⟩
    · cases htext
      cases hb
    · cases htext
      obtain ⟨us, vs, rfl, hus, hvs⟩ := ih (List.not_mem_of_not_mem_cons hfirst) rfl
      exact ⟨us, vs, rfl, .blank hb hus, hvs⟩
  | @lexeme t w behind ts hspelt hfuses hbehind ih =>
    by_cases ht : t = .newline
    · subst ht
      cases hspelt
      rcases first with _ | ⟨c, first⟩
      · cases htext
        exact ⟨[], ts, rfl, .nil, hbehind⟩
      · cases htext
        simp at hfirst
    · -- The lexeme ends before the line does.
      obtain ⟨first, rfl, rfl⟩ : ∃ first', first = w ++ first' ∧ first' ++ '\n' :: rest = behind := by
        rcases List.append_eq_append_iff.1 htext with ⟨more, hw, hmore⟩ | ⟨first', hfirst', hbehind'⟩
        · rcases more with _ | ⟨c, more⟩
          · exact ⟨[], by simpa using hw.symm, hmore⟩
          · cases hmore
            exact absurd (hw ▸ by simp) (hspelt.no_break ht)
        · exact ⟨first', hfirst', hbehind'.symm⟩
      obtain ⟨us, vs, rfl, hus, hvs⟩ := ih (fun hmem => hfirst (List.mem_append_right w hmem)) rfl
      refine ⟨t :: us, vs, rfl, .lexeme hspelt (fun d hd => hfuses d ?_) hus, hvs⟩
      rw [List.head?_append, Option.mem_def.1 hd]
      rfl

theorem Piece.count_break (pieces : List Piece) :
    (pieces.flatMap Piece.text).count '\n' = (pieces.map Piece.token).count .newline := by
  induction pieces with
  | nil => rfl
  | cons p pieces ih =>
    have hblanks : p.blanks.count '\n' = 0 := List.count_eq_zero.2 (not_break_of_isBlank p.blank)
    rw [List.flatMap_cons, Piece.text, List.count_append, List.count_append, hblanks, p.spelt.count_break, ih]
    show _ = ([p.token] ++ pieces.map Piece.token).count .newline
    rw [List.count_append]
    rfl

/-- As many line breaks stand before a lexeme as before its token. -/
theorem IsCut.count_break {text blanks : List Char} {pieces : List Piece} (h : IsCut text blanks pieces) (i : Nat) :
    (blanks ++ (pieces.take i).flatMap Piece.text).count '\n' = (before (pieces.map Piece.token) i).line := by
  rw [List.count_append, List.count_eq_zero.2 (not_break_of_isBlank h.blank), Nat.zero_add, Piece.count_break,
    List.map_take]
  rfl

theorem Cursor.before_line_le (ts : List Token) (i : Nat) : (before ts i).line ≤ ts.count .newline :=
  (List.take_sublist i ts).count_le _

/-! ## The layout -/

theorem Lexed.length_lines {script : String} {lexed : Lexed} (h : Lexed.ofString script = .ok lexed) :
    (script.toList.splitOn '\n').length = lexed.tokens.count .newline + 1 := by
  have hcomplete : lexed.layout.depths.length = _ := Lexed.complete_of_ofString h
  rwa [Lexed.depths_eq h, List.length_map] at hcomplete

theorem Lexed.depth_before {script : String} {lexed : Lexed} (h : Lexed.ofString script = .ok lexed) (i : Nat) :
    ∃ line, (script.toList.splitOn '\n')[(before lexed.tokens i).line]? = some line ∧
      (before lexed.tokens i).depth lexed.layout = leadingBlanks line := by
  have hlt : (before lexed.tokens i).line < (script.toList.splitOn '\n').length := by
    have := before_line_le lexed.tokens i
    have := Lexed.length_lines h
    omega
  refine ⟨_, List.getElem?_eq_getElem hlt, ?_⟩
  rw [Cursor.depth, Layout.depth, Lexed.depths_eq h, List.getElem?_map, List.getElem?_eq_getElem hlt]
  rfl

/-- A text has one line more than tokens that are line breaks, the layout has the leading blanks of each
    line, and a cursor looks up the line where the lexeme of its token lies. -/
theorem layout_tells_the_lines {script : String} {lexed : Lexed} (h : Lexed.ofString script = .ok lexed) :
    (script.toList.splitOn '\n').length = lexed.tokens.count .newline + 1 ∧
      lexed.layout.depths = (script.toList.splitOn '\n').map leadingBlanks ∧
      ∃ blanks pieces, IsCut script.toList blanks pieces ∧ pieces.map Piece.token = lexed.tokens ∧
        ∀ i < lexed.tokens.length, ∃ line,
          (script.toList.splitOn '\n')[(blanks ++ (pieces.take i).flatMap Piece.text).count '\n']? = some line ∧
            (before lexed.tokens i).depth lexed.layout = leadingBlanks line := by
  obtain ⟨blanks, pieces, hcut, htokens⟩ := (Lexed.ofString_eq_ok_iff.1 h).tokenizes.exists_cut
  refine ⟨Lexed.length_lines h, Lexed.depths_eq h, blanks, pieces, hcut, htokens, fun i _ => ?_⟩
  rw [hcut.count_break, htokens]
  exact Lexed.depth_before h i

theorem a_blank_line_has_its_depth :
    ∃ lexed, Lexed.ofString "  x\n\t\n y\n" = .ok lexed ∧ ("  x\n\t\n y\n".toList.splitOn '\n').length = 4 ∧
      ("  x\n\t\n y\n".toList.splitOn '\n').map leadingBlanks = [2, 1, 1, 0] := by
  let tokens : List Token := [.name "x", .newline, .newline, .name "y", .newline]
  have hlex : Lexed.ofString "  x\n\t\n y\n" = .ok ⟨tokens, ⟨[2, 1, 1, 0]⟩⟩ :=
    Except.eq_ok_of_toOption (by decide +kernel)
  obtain ⟨hlength, hdepths, -⟩ := layout_tells_the_lines hlex
  exact ⟨_, hlex, hlength, hdepths.symm⟩

end ScriptToC
