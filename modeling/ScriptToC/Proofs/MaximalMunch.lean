/-
  ScriptToC.Proofs.MaximalMunch — how a text is cut into tokens, said by spellings and without reading.

  A text is cut into blanks and lexemes. Each lexeme spells its token (`Token.Spelt`), and blanks may be
  missing between two lexemes only where the first would not be read on into the second (`Fuses`).
  Main statement: `tokens_iff_cut`, and no text can be cut in two ways.
-/

import Mathlib.Data.List.Chain
import ScriptToC.Proofs.Lexing

namespace ScriptToC

/-! ## Spellings -/

/-- What can be written for a token. Division has two spellings, and numbers may have leading zeros. -/
inductive Token.Spelt : Token → List Char → Prop
  | number {n : UInt64} {digits : List Char} : digits ≠ [] → (∀ d ∈ digits, d.isDigit = true) →
      Nat.ofDigitChars 10 digits 0 = n.toNat → Spelt (.number n) digits
  | name {x : String} : IsName x → (∀ k : Keyword, x ≠ k.spelling) → Spelt (.name x) x.toList
  | word (k : Keyword) : Spelt (.word k) k.spelling.toList
  | arith (op : ArithOp) : Spelt (.arith op) op.symbol.toList
  | twoSlashes : Spelt (.arith .div) ['/', '/']
  | compare (op : CompareOp) : Spelt (.compare op) op.symbol.toList
  | mark (m : Mark) : Spelt (.mark m) m.symbol.toList
  | newline : Spelt .newline ['\n']

/-- A lexeme that a character directly behind it would make longer. -/
inductive Fuses : Token → List Char → Char → Prop
  | name {x : String} {w : List Char} {c : Char} : isNameChar c = true → Fuses (.name x) w c
  | word {k : Keyword} {w : List Char} {c : Char} : isNameChar c = true → Fuses (.word k) w c
  | number {n : UInt64} {w : List Char} {c : Char} : c.isDigit = true → Fuses (.number n) w c
  | slash : Fuses (.arith .div) ['/'] '/'
  | assign : Fuses (.mark .assign) ['='] '='
  | less : Fuses (.compare .lt) ['<'] '='
  | greater : Fuses (.compare .gt) ['>'] '='

theorem Keyword.isName_spelling (k : Keyword) : IsName k.spelling := by
  cases k <;> exact ⟨_, _, rfl, rfl, List.all_eq_true.1 rfl⟩

/-! ### A spelling is read as its token -/

theorem Token.ofDigits?_eq_some {digits : List Char} {t : Token} (h : Token.ofDigits? digits = some t) :
    ∃ n : UInt64, t = .number n ∧ Nat.ofDigitChars 10 digits 0 = n.toNat := by
  unfold Token.ofDigits? at h
  dsimp only at h
  split at h
  · cases h
    exact ⟨_, rfl, by simp⟩
  · cases h

/-- A word is a keyword, or the name that it spells. -/
theorem Token.ofWord_cases (cs : List Char) :
    (∃ k, Token.ofWord cs = .word k ∧ String.ofList cs = k.spelling) ∨
      (Token.ofWord cs = .name (String.ofList cs) ∧ ∀ k : Keyword, String.ofList cs ≠ k.spelling) := by
  unfold Token.ofWord
  split
  · exact .inl ⟨.ifWord, rfl, ‹_›⟩
  · exact .inl ⟨.elseWord, rfl, ‹_›⟩
  · exact .inl ⟨.returnWord, rfl, ‹_›⟩
  · exact .inl ⟨.defWord, rfl, ‹_›⟩
  · exact .inr ⟨rfl, fun k => by cases k <;> assumption⟩

theorem Token.ofWord_of_name {x : String} (h : ∀ k : Keyword, x ≠ k.spelling) : Token.ofWord x.toList = .name x := by
  rcases Token.ofWord_cases x.toList with ⟨k, -, hk⟩ | ⟨hname, -⟩
  · rw [String.ofList_toList] at hk
    exact absurd hk (h k)
  · rw [hname, String.ofList_toList]

theorem IsName.ofSpelling? {x : String} (h : IsName x) :
    Token.ofSpelling? x.toList = some (Token.ofWord x.toList) := by
  rcases h with ⟨c, cs, hx, hc, -⟩
  rw [hx, Token.ofSpelling?, if_neg (by simp [not_isDigit_of_isNameStart hc]), if_pos hc]

theorem Token.Spelt.ofSpelling? {t : Token} {w : List Char} (h : t.Spelt w) : Token.ofSpelling? w = some t := by
  cases h with
  | @number n _ hne hdigits hvalue =>
    obtain ⟨c, cs, rfl⟩ := List.exists_cons_of_ne_nil hne
    rw [Token.ofSpelling?, if_pos (hdigits c (by simp))]
    simp [Token.ofDigits?, hvalue, n.toNat_lt]
  | name hx hk => rw [hx.ofSpelling?, Token.ofWord_of_name hk]
  | word k => rw [k.isName_spelling.ofSpelling?, Token.ofWord_spelling]
  | arith op => cases op <;> rfl
  | twoSlashes => rfl
  | compare op => cases op <;> rfl
  | mark m => cases m <;> rfl
  | newline => rfl

/-! ### A spelling is cut off whole -/

theorem IsName.munch {x : String} (h : IsName x) {rest : List Char}
    (hrest : ∀ d ∈ rest.head?, ScriptToC.isNameChar d = false) :
    ∃ c w, x.toList = c :: w ∧ ScriptToC.munch c (w ++ rest) = (c :: w, rest) := by
  rcases h with ⟨c, w, hx, hc, hw⟩
  obtain ⟨htake, hdrop⟩ := takeWhile_run hw hrest
  exact ⟨c, w, hx, by rw [munch_name hc, htake, hdrop]⟩

theorem munch_one {c : Char} (hdigit : c.isDigit = false) (hname : isNameStart c = false) {rest : List Char}
    (hrest : ∀ d ∈ rest.head?, joins c d = false) : munch c rest = ([c], rest) := by
  rcases rest with _ | ⟨d, rest⟩
  · simp [munch, hdigit, hname]
  · simp [munch, hdigit, hname, hrest d rfl]

theorem munch_two {c d : Char} (hdigit : c.isDigit = false) (hname : isNameStart c = false) (hjoins : joins c d = true)
    (rest : List Char) : munch c (d :: rest) = ([c, d], rest) := by
  simp [munch, hdigit, hname, hjoins]

/-- A symbol that joins with one character only, and does not stand in front of it. -/
theorem munch_apart {c partner : Char} (hdigit : c.isDigit = false) (hname : isNameStart c = false)
    (hjoins : ∀ d, d ≠ partner → joins c d = false) {rest : List Char} (hrest : ∀ d ∈ rest.head?, d ≠ partner) :
    munch c rest = ([c], rest) :=
  munch_one hdigit hname (fun d hd => hjoins d (hrest d hd))

/-- Where nothing fuses with it, a spelling is the longest lexeme. -/
theorem Token.Spelt.munch {t : Token} {w rest : List Char} (h : t.Spelt w) (hrest : ∀ d ∈ rest.head?, ¬Fuses t w d) :
    ∃ c v, w = c :: v ∧ ScriptToC.munch c (v ++ rest) = (w, rest) := by
  cases h with
  | number hne hdigits _ =>
    obtain ⟨c, cs, rfl⟩ := List.exists_cons_of_ne_nil hne
    obtain ⟨hc, hcs⟩ := List.forall_mem_cons.1 hdigits
    obtain ⟨htake, hdrop⟩ := takeWhile_run hcs
      (fun d hd => Bool.not_eq_true _ ▸ fun hdigit => hrest d hd (.number hdigit))
    exact ⟨c, cs, rfl, by rw [munch_digit hc, htake, hdrop]⟩
  | name hx _ =>
    obtain ⟨c, v, hw, hm⟩ := hx.munch (fun d hd => Bool.not_eq_true _ ▸ fun hchar => hrest d hd (.name hchar))
    exact ⟨c, v, hw, hw ▸ hm⟩
  | word k =>
    obtain ⟨c, v, hw, hm⟩ :=
      k.isName_spelling.munch (fun d hd => Bool.not_eq_true _ ▸ fun hchar => hrest d hd (.word hchar))
    exact ⟨c, v, hw, hw ▸ hm⟩
  | arith op =>
    cases op with
    | add | sub | mul => exact ⟨_, [], rfl, munch_one rfl rfl (fun _ _ => rfl)⟩
    | div =>
      exact ⟨'/', [], rfl, munch_apart rfl rfl (by simp [joins]) (fun d hd heq => hrest d hd (heq ▸ .slash))⟩
  | twoSlashes => exact ⟨'/', ['/'], rfl, munch_two rfl rfl rfl rest⟩
  | compare op =>
    cases op with
    | eq | ne | le | ge => exact ⟨_, ['='], rfl, munch_two rfl rfl rfl rest⟩
    | lt =>
      exact ⟨'<', [], rfl, munch_apart rfl rfl (by simp [joins]) (fun d hd heq => hrest d hd (heq ▸ .less))⟩
    | gt =>
      exact ⟨'>', [], rfl, munch_apart rfl rfl (by simp [joins]) (fun d hd heq => hrest d hd (heq ▸ .greater))⟩
  | mark m =>
    cases m with
    | openParen | closeParen | semicolon | colon | comma => exact ⟨_, [], rfl, munch_one rfl rfl (fun _ _ => rfl)⟩
    | assign =>
      exact ⟨'=', [], rfl, munch_apart rfl rfl (by simp [joins]) (fun d hd heq => hrest d hd (heq ▸ .assign))⟩
  | newline => exact ⟨'\n', [], rfl, munch_break rest⟩

/-- Two texts that begin with spellings do so with the same one. -/
theorem Token.Spelt.unique {t t' : Token} {w w' rest rest' : List Char} (h : t.Spelt w) (h' : t'.Spelt w')
    (hrest : ∀ d ∈ rest.head?, ¬Fuses t w d) (hrest' : ∀ d ∈ rest'.head?, ¬Fuses t' w' d)
    (heq : w ++ rest = w' ++ rest') : t = t' ∧ w = w' ∧ rest = rest' := by
  obtain ⟨c, v, hw, hm⟩ := h.munch hrest
  obtain ⟨c', v', hw', hm'⟩ := h'.munch hrest'
  rw [hw, hw', List.cons_append, List.cons_append] at heq
  obtain ⟨hc, htail⟩ := List.cons.inj heq
  rw [hc, htail, hm', Prod.mk.injEq] at hm
  obtain ⟨hsame, hrest⟩ := hm
  have ht := h.ofSpelling?
  rw [← hsame, h'.ofSpelling?] at ht
  exact ⟨(Option.some.inj ht).symm, hsame.symm, hrest.symm⟩

/-! ### A lexeme that is read is a spelling -/

/-- What a symbol is, and whether the next character joins it. -/
theorem munch_symbol {c : Char} (hdigit : c.isDigit = false) (hname : isNameStart c = false) (tail : List Char) :
    (munch c tail = ([c], tail) ∧ ∀ d ∈ tail.head?, joins c d = false) ∨
      ∃ d rest, munch c tail = ([c, d], rest) ∧ joins c d = true := by
  rcases tail with _ | ⟨d, rest⟩
  · exact .inl ⟨by simp [munch, hdigit, hname], by simp⟩
  · cases hjoins : joins c d with
    | true => exact .inr ⟨d, rest, munch_two hdigit hname hjoins rest, hjoins⟩
    | false =>
      have hone : ∀ e ∈ (d :: rest).head?, joins c e = false := by simpa using hjoins
      exact .inl ⟨munch_one hdigit hname hone, hone⟩

theorem Token.spelt_of_ofSymbol? {w : List Char} {t : Token} (h : Token.ofSymbol? w = some t) : t.Spelt w := by
  unfold Token.ofSymbol? at h
  split at h <;> cases h
  case h_1 => exact .newline
  case h_2 => exact .arith .add
  case h_3 => exact .arith .sub
  case h_4 => exact .arith .mul
  case h_5 => exact .arith .div
  case h_6 => exact .twoSlashes
  case h_7 => exact .compare .eq
  case h_8 => exact .compare .ne
  case h_9 => exact .compare .lt
  case h_10 => exact .compare .gt
  case h_11 => exact .compare .le
  case h_12 => exact .compare .ge
  case h_13 => exact .mark .assign
  case h_14 => exact .mark .openParen
  case h_15 => exact .mark .closeParen
  case h_16 => exact .mark .semicolon
  case h_17 => exact .mark .colon
  case h_18 => exact .mark .comma

/-- Only a symbol of one character fuses with the next one, and then they join. -/
theorem Fuses.joins {t : Token} {c d : Char} {w : List Char} (h : Fuses t (c :: w) d)
    (ht : Token.ofSymbol? (c :: w) = some t) : w = [] ∧ ScriptToC.joins c d = true := by
  cases h with
  | slash | assign | less | greater => exact ⟨rfl, rfl⟩
  | name _ => exact absurd ht (Token.ofSymbol?_ne_name _ _)
  | word _ | number _ =>
    unfold Token.ofSymbol? at ht
    split at ht <;> cases ht

theorem Token.spelt_ofWord {cs : List Char} (h : IsName (String.ofList cs)) : (Token.ofWord cs).Spelt cs := by
  rcases Token.ofWord_cases cs with ⟨k, hword, hk⟩ | ⟨hname, hk⟩
  · have hspelt := Token.Spelt.word k
    rw [← hk, String.toList_ofList] at hspelt
    exact hword ▸ hspelt
  · have hspelt := Token.Spelt.name h hk
    rw [String.toList_ofList] at hspelt
    exact hname ▸ hspelt

theorem Fuses.isNameChar {cs w : List Char} {d : Char} (h : Fuses (Token.ofWord cs) w d) :
    ScriptToC.isNameChar d = true := by
  rcases Token.ofWord_cases cs with ⟨k, hword, -⟩ | ⟨hname, -⟩
  · rw [hword] at h
    cases h
    assumption
  · rw [hname] at h
    cases h
    assumption

theorem spelt_of_munch_digit {c : Char} (hdigit : c.isDigit = true) {tail : List Char} {t : Token}
    (h : Token.ofSpelling? (munch c tail).1 = some t) :
    t.Spelt (munch c tail).1 ∧ ∀ d ∈ (munch c tail).2.head?, ¬Fuses t (munch c tail).1 d := by
  rw [munch_digit hdigit] at h ⊢
  rw [Token.ofSpelling?, if_pos hdigit] at h
  obtain ⟨n, rfl, hvalue⟩ := Token.ofDigits?_eq_some h
  refine ⟨.number (by simp) (List.forall_mem_cons.2 ⟨hdigit, fun d hd => ?_⟩) hvalue, fun d hd hfuses => ?_⟩
  · exact List.all_eq_true.1 List.all_takeWhile d hd
  · cases hfuses with
    | number hd' => simp [head?_dropWhile hd] at hd'

theorem spelt_of_munch_name {c : Char} (hname : isNameStart c = true) {tail : List Char} {t : Token}
    (h : Token.ofSpelling? (munch c tail).1 = some t) :
    t.Spelt (munch c tail).1 ∧ ∀ d ∈ (munch c tail).2.head?, ¬Fuses t (munch c tail).1 d := by
  rw [munch_name hname] at h ⊢
  rw [Token.ofSpelling?, if_neg (by simp [not_isDigit_of_isNameStart hname]), if_pos hname, Option.some.injEq] at h
  subst h
  refine ⟨Token.spelt_ofWord ⟨c, _, String.toList_ofList, hname, fun d hd => ?_⟩, fun d hd hfuses => ?_⟩
  · exact List.all_eq_true.1 List.all_takeWhile d hd
  · have hnot := head?_dropWhile hd
    rw [hfuses.isNameChar] at hnot
    cases hnot

theorem spelt_of_munch_symbol {c : Char} (hdigit : c.isDigit = false) (hname : isNameStart c = false)
    {tail : List Char} {t : Token} (h : Token.ofSpelling? (munch c tail).1 = some t) :
    t.Spelt (munch c tail).1 ∧ ∀ d ∈ (munch c tail).2.head?, ¬Fuses t (munch c tail).1 d := by
  have hsymbol : ∀ w, Token.ofSpelling? (c :: w) = Token.ofSymbol? (c :: w) := by
    simp [Token.ofSpelling?, hdigit, hname]
  rcases munch_symbol hdigit hname tail with ⟨hm, hapart⟩ | ⟨d, rest, hm, -⟩
  · rw [hm] at h ⊢
    rw [hsymbol] at h
    refine ⟨Token.spelt_of_ofSymbol? h, fun d hd hfuses => ?_⟩
    have hjoins := (hfuses.joins h).2
    rw [hapart d hd] at hjoins
    cases hjoins
  · rw [hm] at h ⊢
    rw [hsymbol] at h
    refine ⟨Token.spelt_of_ofSymbol? h, fun e _ hfuses => ?_⟩
    cases (hfuses.joins h).1

/-- What is read as a token spells it, and fuses with nothing behind it. -/
theorem spelt_of_munch {c : Char} {tail : List Char} {t : Token} (h : Token.ofSpelling? (munch c tail).1 = some t) :
    t.Spelt (munch c tail).1 ∧ ∀ d ∈ (munch c tail).2.head?, ¬Fuses t (munch c tail).1 d := by
  by_cases hdigit : c.isDigit = true
  · exact spelt_of_munch_digit hdigit h
  · by_cases hname : isNameStart c = true
    · exact spelt_of_munch_name hname h
    · exact spelt_of_munch_symbol (Bool.not_eq_true _ ▸ hdigit) (Bool.not_eq_true _ ▸ hname) h

/-! ## The tokens of a text -/

/-- A text of these tokens: blanks anywhere, and spellings that do not fuse with what follows. -/
inductive Tokenizes : List Char → List Token → Prop
  | nil : Tokenizes [] []
  | blank {b : Char} {rest : List Char} {ts : List Token} : isBlank b = true → Tokenizes rest ts →
      Tokenizes (b :: rest) ts
  | lexeme {t : Token} {w rest : List Char} {ts : List Token} : t.Spelt w → (∀ d ∈ rest.head?, ¬Fuses t w d) →
      Tokenizes rest ts → Tokenizes (w ++ rest) (t :: ts)

theorem Tokenizes.blanks {blanks rest : List Char} {ts : List Token} (h : Tokenizes rest ts)
    (hblanks : ∀ b ∈ blanks, isBlank b = true) : Tokenizes (blanks ++ rest) ts := by
  induction blanks with
  | nil => exact h
  | cons b blanks ih =>
    obtain ⟨hb, hblanks⟩ := List.forall_mem_cons.1 hblanks
    exact .blank hb (ih hblanks)

theorem Tokenizes.spelt {text : List Char} {ts : List Token} (h : Tokenizes text ts) : ∀ t ∈ ts, ∃ w, t.Spelt w := by
  induction h with
  | nil => simp
  | blank _ _ ih => exact ih
  | lexeme hspelt _ _ ih => exact List.forall_mem_cons.2 ⟨⟨_, hspelt⟩, ih⟩

/-- The names of a script are not keywords. -/
theorem Tokenizes.spelt_name {text : List Char} {ts : List Token} (h : Tokenizes text ts) {x : String}
    (hx : .name x ∈ ts) : Token.Spelt (.name x) x.toList := by
  obtain ⟨w, hw⟩ := h.spelt _ hx
  cases hw with
  | name hname hk => exact .name hname hk

theorem Scanned.tokenizes {lineStart : Bool} {cs : List Char} {l : Lexed} (h : Scanned lineStart cs l) :
    Tokenizes cs l.tokens := by
  induction h with
  | blanks hblanks => simpa using Tokenizes.nil.blanks hblanks
  | newline hblanks _ ih =>
    refine Tokenizes.blanks (Tokenizes.lexeme .newline (fun d _ hfuses => ?_) ih) hblanks
    cases hfuses
  | @lexeme _ _ c tail _ _ hblanks _ ht _ _ ih =>
    obtain ⟨hspelt, hfuses⟩ := spelt_of_munch ht
    have htokenizes := Tokenizes.lexeme hspelt hfuses ih
    rw [munch_append] at htokenizes
    exact htokenizes.blanks hblanks

theorem not_isBlank {p : Char → Bool} {c : Char} (hc : p c = true)
    (hp : [' ', '\t', '\r'].all (fun d => !p d) = true) : isBlank c = false :=
  kinds_apart (by simp [isBlank, or_assoc]) hp hc

theorem IsName.not_blank {x : String} (h : IsName x) : ∀ c ∈ x.toList.head?, isBlank c = false := by
  rcases h with ⟨d, cs, hx, hd, -⟩
  rw [hx]
  rintro c ⟨⟩
  exact not_isBlank hd rfl

theorem Token.Spelt.not_blank {t : Token} {w : List Char} (h : t.Spelt w) : ∀ c ∈ w.head?, isBlank c = false := by
  cases h with
  | number _ hdigits _ => exact fun c hc => not_isBlank (hdigits c (List.mem_of_mem_head? hc)) rfl
  | name hx _ => exact hx.not_blank
  | word k => exact k.isName_spelling.not_blank
  | arith op => cases op <;> rintro _ ⟨⟩ <;> rfl
  | compare op => cases op <;> rintro _ ⟨⟩ <;> rfl
  | mark m => cases m <;> rintro _ ⟨⟩ <;> rfl
  | twoSlashes | newline =>
    rintro _ ⟨⟩
    rfl

/-- A blank in front changes the layout and no token. -/
theorem Scanned.blank {lineStart : Bool} {cs : List Char} {l : Lexed} (h : Scanned lineStart cs l) {b : Char}
    (hb : isBlank b = true) : ∃ layout, Scanned lineStart (b :: cs) ⟨l.tokens, layout⟩ := by
  cases h with
  | blanks hblanks => exact ⟨_, .blanks (List.forall_mem_cons.2 ⟨hb, hblanks⟩)⟩
  | newline hblanks hrest => exact ⟨_, .newline (List.forall_mem_cons.2 ⟨hb, hblanks⟩) hrest⟩
  | lexeme hblanks hc ht hne hrest => exact ⟨_, .lexeme (List.forall_mem_cons.2 ⟨hb, hblanks⟩) hc ht hne hrest⟩

theorem Tokenizes.scanned {cs : List Char} {ts : List Token} (h : Tokenizes cs ts) (lineStart : Bool) :
    ∃ layout, Scanned lineStart cs ⟨ts, layout⟩ := by
  induction h generalizing lineStart with
  | nil => exact ⟨_, .blanks (by simp)⟩
  | blank hb _ ih =>
    obtain ⟨layout, hscanned⟩ := ih lineStart
    exact hscanned.blank hb
  | @lexeme t w rest ts hspelt hfuses _ ih =>
    obtain ⟨c, v, rfl, hm⟩ := hspelt.munch hfuses
    have hc := hspelt.not_blank c rfl
    have ht := hspelt.ofSpelling?
    have hnone : ∀ b ∈ ([] : List Char), isBlank b = true := by simp
    by_cases hne : t = .newline
    · subst hne
      obtain ⟨layout, hscanned⟩ := ih true
      cases hspelt
      exact ⟨_, .newline hnone hscanned⟩
    · obtain ⟨layout, hscanned⟩ := ih false
      have hsplit : Scanned false (munch c (v ++ rest)).2 ⟨ts, layout⟩ := by rw [hm]; exact hscanned
      exact ⟨_, .lexeme hnone hc (by rw [hm]; exact ht) hne hsplit⟩

theorem tokens_eq_ok_iff {text : String} {ts : List Token} :
    (Lexed.ofString text).map Lexed.tokens = .ok ts ↔ Tokenizes text.toList ts := by
  rw [Except.map_eq_ok]
  constructor
  · intro h
    rcases h with ⟨l, hl, rfl⟩
    exact (Lexed.ofString_eq_ok_iff.1 hl).tokenizes
  · intro h
    obtain ⟨layout, hscanned⟩ := h.scanned true
    exact ⟨_, Lexed.ofString_eq_ok_iff.2 hscanned, rfl⟩

/-! ## Cuts -/

/-- A lexeme, the token that it spells, and the blanks behind it. -/
structure Piece where
  token : Token
  lexeme : List Char
  blanks : List Char
  spelt : token.Spelt lexeme
  blank : ∀ b ∈ blanks, isBlank b = true

def Piece.text (p : Piece) : List Char := p.lexeme ++ p.blanks

/-- Without blanks between them, the lexeme in front does not fuse with the one behind. -/
def Piece.Apart (p q : Piece) : Prop := p.blanks = [] → ∀ c ∈ q.lexeme.head?, ¬Fuses p.token p.lexeme c

/-- The text is these blanks and then these pieces, each of them apart from the next. -/
structure IsCut (text blanks : List Char) (pieces : List Piece) : Prop where
  blank : ∀ b ∈ blanks, isBlank b = true
  apart : pieces.IsChain Piece.Apart
  text : text = blanks ++ pieces.flatMap Piece.text

theorem Token.Spelt.ne_nil {t : Token} {w : List Char} (h : t.Spelt w) : w ≠ [] := by
  rintro rfl
  cases h.ofSpelling?

theorem Fuses.not_blank {t : Token} {w : List Char} {d : Char} (h : Fuses t w d) : isBlank d = false := by
  cases h with
  | name hd | word hd => exact not_isBlank hd rfl
  | number hd => exact not_isBlank hd rfl
  | slash | assign | less | greater => rfl

theorem Piece.head?_text (p : Piece) (rest : List Char) : (p.text ++ rest).head? = p.lexeme.head? := by
  obtain ⟨c, w, hw⟩ := List.exists_cons_of_ne_nil p.spelt.ne_nil
  simp [Piece.text, hw]

namespace IsCut

variable {text blanks blanks' : List Char} {p : Piece} {pieces pieces' : List Piece}

/-- What follows a lexeme begins with its blanks, and does not fuse with it. -/
theorem behind (h : IsCut text blanks (p :: pieces)) :
    IsCut (p.blanks ++ pieces.flatMap Piece.text) p.blanks pieces ∧
      ∀ d ∈ (p.blanks ++ pieces.flatMap Piece.text).head?, ¬Fuses p.token p.lexeme d := by
  obtain ⟨hnext, hpieces⟩ := List.isChain_cons.1 h.apart
  refine ⟨⟨p.blank, hpieces, rfl⟩, fun d hd hfuses => ?_⟩
  rcases hb : p.blanks with _ | ⟨b, bs⟩
  · rcases pieces with _ | ⟨q, pieces⟩
    · simp [hb] at hd
    · rw [hb, List.nil_append, List.flatMap_cons, q.head?_text] at hd
      exact hnext q rfl hb d hd hfuses
  · rw [hb, List.cons_append, List.head?_cons, Option.mem_some_iff] at hd
    have hblank := p.blank b (by simp [hb])
    rw [hd, hfuses.not_blank] at hblank
    cases hblank

theorem tokenizes (h : IsCut text blanks pieces) : Tokenizes text (pieces.map Piece.token) := by
  induction pieces generalizing text blanks with
  | nil =>
    rw [h.text]
    exact Tokenizes.nil.blanks h.blank
  | cons p pieces ih =>
    obtain ⟨hbehind, hfuses⟩ := h.behind
    rw [h.text, List.flatMap_cons, Piece.text, List.append_assoc]
    exact (Tokenizes.lexeme p.spelt hfuses (ih hbehind)).blanks h.blank

/-- The blanks in front end where the first lexeme begins. -/
theorem blanks_eq (h : IsCut text blanks pieces) :
    text.takeWhile isBlank = blanks ∧ text.dropWhile isBlank = pieces.flatMap Piece.text := by
  rw [h.text]
  refine takeWhile_run h.blank (fun c hc => ?_)
  rcases pieces with _ | ⟨p, pieces⟩
  · cases hc
  · rw [List.flatMap_cons, p.head?_text] at hc
    exact p.spelt.not_blank c hc

theorem unique (h : IsCut text blanks pieces) (h' : IsCut text blanks' pieces') :
    blanks = blanks' ∧ pieces = pieces' := by
  refine ⟨h.blanks_eq.1.symm.trans h'.blanks_eq.1, ?_⟩
  induction pieces generalizing text blanks blanks' pieces' with
  | nil =>
    have hrest := h.blanks_eq.2.symm.trans h'.blanks_eq.2
    rcases pieces' with _ | ⟨q, pieces'⟩
    · rfl
    · simp [Piece.text, q.spelt.ne_nil] at hrest
  | cons p pieces ih =>
    have hrest := h.blanks_eq.2.symm.trans h'.blanks_eq.2
    rcases pieces' with _ | ⟨q, pieces'⟩
    · simp [Piece.text, p.spelt.ne_nil] at hrest
    · obtain ⟨hbehind, hfuses⟩ := h.behind
      obtain ⟨hbehind', hfuses'⟩ := h'.behind
      simp only [List.flatMap_cons, Piece.text, List.append_assoc] at hrest
      obtain ⟨htoken, hlexeme, hrest⟩ := p.spelt.unique q.spelt hfuses hfuses' hrest
      have hbehind' := hrest.symm ▸ hbehind'
      have hblanks := hbehind.blanks_eq.1.symm.trans hbehind'.blanks_eq.1
      obtain rfl := ih hbehind hbehind'
      rcases p with ⟨token, lexeme, blanks, _, _⟩
      rcases q with ⟨token', lexeme', blanks', _, _⟩
      cases htoken
      cases hlexeme
      cases hblanks
      rfl

end IsCut

theorem Tokenizes.exists_cut {text : List Char} {ts : List Token} (h : Tokenizes text ts) :
    ∃ blanks pieces, IsCut text blanks pieces ∧ pieces.map Piece.token = ts := by
  induction h with
  | nil => exact ⟨[], [], ⟨by simp, .nil, rfl⟩, rfl⟩
  | @blank b _ _ hb _ ih =>
    rcases ih with ⟨blanks, pieces, ⟨hblank, hapart, rfl⟩, rfl⟩
    exact ⟨b :: blanks, pieces, ⟨List.forall_mem_cons.2 ⟨hb, hblank⟩, hapart, rfl⟩, rfl⟩
  | @lexeme t w _ _ hspelt hfuses _ ih =>
    rcases ih with ⟨blanks, pieces, ⟨hblank, hapart, rfl⟩, rfl⟩
    let p : Piece := ⟨t, w, blanks, hspelt, hblank⟩
    have hnext : ∀ q ∈ pieces.head?, p.Apart q := by
      rintro q hq (rfl : blanks = []) c hc
      obtain ⟨others, rfl⟩ := List.head?_eq_some_iff.1 hq
      exact hfuses c (by rw [List.nil_append, List.flatMap_cons, q.head?_text]; exact hc)
    exact ⟨[], p :: pieces, ⟨by simp, List.isChain_cons.2 ⟨hnext, hapart⟩, by simp [p, Piece.text]⟩, rfl⟩

/-- The texts that are cut into these tokens, and in one way only. -/
theorem tokens_iff_cut (text : String) (ts : List Token) :
    ((Lexed.ofString text).map Lexed.tokens = .ok ts ↔
        ∃ blanks pieces, IsCut text.toList blanks pieces ∧ pieces.map Piece.token = ts) ∧
      ∀ blanks blanks' pieces pieces', IsCut text.toList blanks pieces → IsCut text.toList blanks' pieces' →
        blanks = blanks' ∧ pieces = pieces' := by
  refine ⟨⟨fun h => (tokens_eq_ok_iff.1 h).exists_cut, fun h => ?_⟩, fun _ _ _ _ h h' => h.unique h'⟩
  rcases h with ⟨blanks, pieces, hcut, rfl⟩
  exact tokens_eq_ok_iff.2 hcut.tokenizes

end ScriptToC
