/-
  ScriptToC.Proofs.Retranslation — code that only has values and `return` is a script, and its own code
  (`code_is_a_script`).

  Scripts share this notation with C, but for conditionals. Parentheses around names, numbers and
  parentheses are gone when the code is read again, and nothing else is. A script has semicolons
  between statements only, so the last one is left out.
-/

import ScriptToC.Compile
import ScriptToC.Proofs.Functions
import ScriptToC.Proofs.MaximalMunch
import ScriptToC.Proofs.Stripping
import ScriptToC.Proofs.Unparsing

namespace ScriptToC

def Expr.hasConditional : Expr → Bool
  | .number _ | .name _ => false
  | .arith _ l r | .compare _ l r => l.hasConditional || r.hasConditional
  | .conditional .. => true
  | .grouped e => e.hasConditional

/-- A value that stands alone or is returned, and has no conditional. -/
def Stmt.isPlain : Stmt → Bool
  | .ret e | .expr e => !e.hasConditional
  | .assign .. | .function .. => false

/-! ## The text has the tokens -/

/-- A text that no lexeme in front of it goes on with. -/
def EndsLexeme (rest : List Char) : Prop := ∀ c ∈ rest.head?, c = ' ' ∨ c = ')' ∨ c = ';'

theorem EndsLexeme.not_fuses {rest : List Char} (h : EndsLexeme rest) (t : Token) (w : List Char) :
    ∀ c ∈ rest.head?, ¬Fuses t w c := by
  intro c hc hfuses
  rcases h c hc with rfl | rfl | rfl <;> cases hfuses <;> contradiction

theorem endsLexeme_cons {c : Char} (h : c = ' ' ∨ c = ')' ∨ c = ';') (rest : List Char) : EndsLexeme (c :: rest) := by
  intro d hd
  cases hd
  exact h

/-- A text has these tokens, whatever it is that goes on with no lexeme of it. -/
def Lexes (text : List Char) (ts : List Token) : Prop :=
  ∀ rest us, EndsLexeme rest → Tokenizes rest us → Tokenizes (text ++ rest) (ts ++ us)

namespace Lexes

variable {text left right w : List Char} {ts us : List Token} {t : Token}

theorem tokenizes (h : Lexes text ts) : Tokenizes text ts := by
  simpa using h [] [] (by simp [EndsLexeme]) .nil

theorem lexeme (h : t.Spelt w) : Lexes w [t] := fun _ _ hends hrest => .lexeme h (hends.not_fuses t w) hrest

/-- A lexeme with a space behind it. -/
theorem leading (ht : t.Spelt w) (hright : Lexes right us) : Lexes (w ++ ' ' :: right) (t :: us) := by
  intro rest vs hends hrest
  have hspace : EndsLexeme (' ' :: (right ++ rest)) := endsLexeme_cons (.inl rfl) _
  simpa using Tokenizes.lexeme ht (hspace.not_fuses t w) (.blank rfl (hright rest vs hends hrest))

/-- Operators are written with a space on either side. -/
theorem spaced (hleft : Lexes left ts) (ht : t.Spelt w) (hright : Lexes right us) :
    Lexes (left ++ ' ' :: (w ++ ' ' :: right)) (ts ++ t :: us) := by
  intro rest vs hends hrest
  have hspace : EndsLexeme (' ' :: (w ++ ' ' :: right ++ rest)) := endsLexeme_cons (.inl rfl) _
  simpa using hleft _ _ hspace (.blank rfl (leading ht hright rest vs hends hrest))

theorem parens (h : Lexes text ts) :
    Lexes ('(' :: (text ++ [')'])) (.mark .openParen :: (ts ++ [.mark .closeParen])) := by
  intro rest vs _ hrest
  have hclose : Tokenizes (')' :: rest) (.mark .closeParen :: vs) :=
    .lexeme (.mark .closeParen) (fun d _ => nofun) hrest
  have hinner := h _ _ (endsLexeme_cons (.inr (.inl rfl)) rest) hclose
  have hopen : Tokenizes ('(' :: (text ++ ')' :: rest)) (.mark .openParen :: (ts ++ .mark .closeParen :: vs)) :=
    .lexeme (.mark .openParen) (fun d _ => nofun) hinner
  simpa using hopen

/-- Two statements, with a semicolon and a space between them. -/
theorem behind (hleft : Lexes left ts) (hright : Lexes right us) :
    Lexes (left ++ ';' :: ' ' :: right) (ts ++ .mark .semicolon :: us) := by
  intro rest vs hends hrest
  have hspace : Tokenizes (' ' :: (right ++ rest)) (us ++ vs) := .blank rfl (hright rest vs hends hrest)
  have hmark : Tokenizes (';' :: ' ' :: (right ++ rest)) (.mark .semicolon :: (us ++ vs)) :=
    .lexeme (.mark .semicolon) (fun d _ => nofun) hspace
  simpa using hleft _ _ (endsLexeme_cons (.inr (.inr rfl)) _) hmark

end Lexes

theorem Token.spelt_number (n : UInt64) : Token.Spelt (.number n) (numberText n).toList :=
  .number (numberText_ne_nil n) (numberText_isDigit n) (ofDigitChars_numberText n)

theorem Expr.lexes {e : Expr} (hn : ∀ x ∈ e.names, Token.Spelt (.name x) x.toList) (hc : e.hasConditional = false) :
    Lexes e.text.toList e.stripped.tokens := by
  induction e with
  | number n => exact .lexeme (Token.spelt_number n)
  | name x => exact .lexeme (hn x (by simp [Expr.names]))
  | arith op l r ihl ihr =>
    obtain ⟨hl, hr⟩ := List.forall_mem_append.1 hn
    obtain ⟨hcl, hcr⟩ := Bool.or_eq_false_iff.1 hc
    simpa [Expr.text, Expr.stripped, Expr.tokens] using (ihl hl hcl).spaced (.arith op) (ihr hr hcr)
  | compare op l r ihl ihr =>
    obtain ⟨hl, hr⟩ := List.forall_mem_append.1 hn
    obtain ⟨hcl, hcr⟩ := Bool.or_eq_false_iff.1 hc
    simpa [Expr.text, Expr.stripped, Expr.tokens] using (ihl hl hcl).spaced (.compare op) (ihr hr hcr)
  | conditional c t f _ _ _ => cases hc
  | grouped e ih =>
    unfold Expr.text Expr.stripped
    split
    · simpa [Expr.tokens] using (ih hn hc).parens
    · exact ih hn hc

theorem Stmt.lexes {s : Stmt} (hplain : s.isPlain = true)
    (hn : ∀ e ∈ s.exprs, ∀ x ∈ e.names, Token.Spelt (.name x) x.toList) (known : Declared) :
    ∃ text, (CStmt.ofStmt known s).1.text.toList = text ++ [';'] ∧ Lexes text s.stripped.tokens := by
  cases s with
  | ret e =>
    have hc : e.hasConditional = false := by simpa [Stmt.isPlain] using hplain
    have hvalue := Expr.lexes (hn e (by simp [Stmt.exprs])) hc
    have htext : (CStmt.ofStmt known (.ret e)).1.text.toList =
        Keyword.returnWord.spelling.toList ++ ' ' :: e.text.toList ++ [';'] := by
      simp [CStmt.ofStmt, CStmt.text, Keyword.spelling]
    exact ⟨_, htext, hvalue.leading (.word .returnWord)⟩
  | expr e =>
    have hc : e.hasConditional = false := by simpa [Stmt.isPlain] using hplain
    have hvalue := Expr.lexes (hn e (by simp [Stmt.exprs])) hc
    exact ⟨_, by simp [CStmt.ofStmt, CStmt.text], hvalue⟩
  | assign x e => cases hplain
  | function f params body => cases hplain

theorem Program.lexes {p : Program} (hne : p ≠ []) (hplain : ∀ s ∈ p, s.isPlain = true)
    (hn : ∀ e ∈ p.exprs, ∀ x ∈ e.names, Token.Spelt (.name x) x.toList) (known : Declared) :
    ∃ text, (Code.text (CStmt.ofStmts known p).1).toList = text ++ [';'] ∧ Lexes text p.stripped.tokens := by
  induction p generalizing known with
  | nil => exact absurd rfl hne
  | cons s p ih =>
    obtain ⟨hs, hp⟩ := List.forall_mem_cons.1 hplain
    obtain ⟨hns, hnp⟩ := List.forall_mem_append.1 hn
    obtain ⟨first, hfirst, hlexes⟩ := Stmt.lexes hs hns known
    rcases p with _ | ⟨s', p⟩
    · refine ⟨first, by simpa [CStmt.ofStmts, CStmt.texts, Code.text] using hfirst, ?_⟩
      simpa [Program.tokens, Stmt.tokensBehind] using hlexes
    · obtain ⟨behind, hbehind, hrest⟩ := ih (List.cons_ne_nil s' p) hp hnp (CStmt.ofStmt known s).2
      refine ⟨first ++ ';' :: ' ' :: behind, ?_, ?_⟩
      · simp only [CStmt.ofStmts, CStmt.texts, Code.text] at hbehind ⊢
        rw [String.intercalate_cons_cons, String.toList_append, String.toList_append, hfirst, hbehind]
        simp
      · simpa [Program.tokens, Stmt.tokensBehind] using hlexes.behind hrest

/-! ## The tokens have the program -/

theorem Stmt.no_def_of_isPlain {s : Stmt} (hplain : s.isPlain = true) (hs : s.Shaped) :
    .word .defWord ∉ s.stripped.tokens := by
  cases hs with
  | ret he | expr he => simpa [Stmt.stripped, Stmt.tokens] using he.stripped.derives.no_def
  | assign _ => cases hplain
  | function _ => cases hplain

/-- A layout has no say where nothing is defined. -/
theorem Program.ofTokens_stripped {p : Program} (hne : p ≠ []) (hshaped : ∀ s ∈ p, s.Shaped)
    (hplain : ∀ s ∈ p, s.isPlain = true) (layout : Option Layout) :
    Program.ofTokens layout p.stripped.tokens = .ok p.stripped := by
  rw [Program.ofTokens_eq_ok_iff_laidOut]
  refine ⟨Program.derives_tokens (Program.stripped_ne_nil hne) (fun s hs => ?_), fun head hdef => ?_⟩
  · obtain ⟨s, hmem, rfl⟩ := Program.mem_stripped.1 hs
    exact (hshaped s hmem).stripped
  · rcases Program.mem_tokens (List.mem_of_getElem? hdef) with hmark | ⟨s, hs, hdef⟩
    · cases hmark
    · obtain ⟨s, hmem, rfl⟩ := Program.mem_stripped.1 hs
      exact absurd hdef (Stmt.no_def_of_isPlain (hplain s hmem) (hshaped s hmem))

/-- Code of plain statements, without the semicolon at its end, is a script: the same program, but for the
    parentheses that are not written, and with the same code. -/
theorem code_is_a_script {script : String} {p : Program} (hscript : ReadsAs script p)
    (hplain : ∀ s ∈ p, s.isPlain = true) :
    ∃ again, (compile script).result = .ok (again ++ ";") ∧
      (∃ lexed, Lexed.ofString again = .ok lexed ∧ ∀ layout, Program.ofTokens layout lexed.tokens = .ok p.stripped) ∧
      (compile again).result = .ok (again ++ ";") := by
  have hcode := compile_eq_ok_iff_readsAs.2 ⟨p, hscript, rfl⟩
  rcases hscript with ⟨lexed, hlex, hp⟩
  have hd := Program.derives_of_ofTokens hp
  have hnames : ∀ e ∈ p.exprs, ∀ x ∈ e.names, Token.Spelt (.name x) x.toList := by
    intro e he x hx
    obtain ⟨us, hsub, he⟩ := hd.exprs e he
    exact (Lexed.ofString_eq_ok_iff.1 hlex).tokenizes.spelt_name (hsub (he.names x hx))
  have hshaped : ∀ s ∈ p, s.Shaped := by
    intro s hs
    obtain ⟨us, -, hs⟩ := hd.stmts s hs
    exact hs.shaped
  obtain ⟨text, htext, hlexes⟩ := Program.lexes hd.ne_nil hplain hnames Declared.empty
  have htokens : (Lexed.ofString (String.ofList text)).map Lexed.tokens = .ok p.stripped.tokens := by
    rw [tokens_eq_ok_iff, String.toList_ofList]
    exact hlexes.tokenizes
  obtain ⟨lexed', hlex', htokens⟩ := Except.map_eq_ok.1 htokens
  have hread : ∀ layout, Program.ofTokens layout lexed'.tokens = .ok p.stripped := by
    rw [htokens]
    exact Program.ofTokens_stripped hd.ne_nil hshaped hplain
  have hsame : (Code.ofProgram p).text = String.ofList text ++ ";" := by
    rw [← String.toList_inj, String.toList_append, String.toList_ofList]
    exact htext
  rw [hsame] at hcode
  refine ⟨String.ofList text, hcode, ⟨lexed', hlex', hread⟩, ?_⟩
  exact compile_eq_ok_iff_readsAs.2 ⟨p.stripped, ⟨lexed', hlex', hread _⟩, by rw [p.text_stripped, hsame]⟩

/-- Blanks and line breaks change too, and so do leading zeros and the second slash. -/
theorem code_of_a_difference_is_a_script :
    ∃ again, (compile "return ((007))//(2 * (x))\n(a - b) - (c)").result = .ok (again ++ ";") ∧
      (∃ lexed, Lexed.ofString again = .ok lexed ∧ ∀ layout, Program.ofTokens layout lexed.tokens =
        .ok [.ret (.arith .div (.number 7) (.grouped (.arith .mul (.number 2) (.name "x")))),
          .expr (.arith .sub (.grouped (.arith .sub (.name "a") (.name "b"))) (.name "c"))]) ∧
      (compile again).result = .ok (again ++ ";") := by
  let p : Program :=
    [.ret (.arith .div (.grouped (.grouped (.number 7))) (.grouped (.arith .mul (.number 2) (.grouped (.name "x"))))),
      .expr (.arith .sub (.grouped (.arith .sub (.name "a") (.name "b"))) (.grouped (.name "c")))]
  let tokens : List Token :=
    [.word .returnWord, .mark .openParen, .mark .openParen, .number 7, .mark .closeParen, .mark .closeParen,
      .arith .div, .mark .openParen, .number 2, .arith .mul, .mark .openParen, .name "x", .mark .closeParen,
      .mark .closeParen, .newline, .mark .openParen, .name "a", .arith .sub, .name "b", .mark .closeParen,
      .arith .sub, .mark .openParen, .name "c", .mark .closeParen]
  have hlex : Lexed.ofString "return ((007))//(2 * (x))\n(a - b) - (c)" = .ok ⟨tokens, ⟨[0, 0]⟩⟩ :=
    Except.eq_ok_of_toOption (by decide +kernel)
  have hp : Program.ofTokens (some ⟨[0, 0]⟩) tokens = .ok p := Except.eq_ok_of_toOption (by decide +kernel)
  exact code_is_a_script ⟨_, hlex, hp⟩ (by decide)

end ScriptToC
