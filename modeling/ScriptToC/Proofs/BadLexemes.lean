/-
  ScriptToC.Proofs.BadLexemes — the first lexeme of a text that is no token, and where it stands.

  No token begins with its character, or it is a number that does not fit in 64 bits (`Misspelt`). What is in
  front of it can be cut into tokens by itself, and its place is told by the line breaks and the characters
  there. Main statement: `bad_lexeme_exact`; two texts are compared with `Lexed.ofString_eq_error_iff`.
-/

import Mathlib.Data.List.DropRight
import ScriptToC.Proofs.MaximalMunch
import ScriptToC.Proofs.SourceLines

namespace ScriptToC

/-! ## Lexemes that are no token -/

/-- A lexeme that is no token, with `rest` behind it. Blanks are passed over and are no lexemes. -/
inductive Misspelt : List Char → List Char → Prop
  | stray {c : Char} {rest : List Char} : isBlank c = false → (∀ t w, ¬Token.Spelt t (c :: w)) → Misspelt [c] rest
  /-- It would be a token with an equals sign behind it. -/
  | bang {rest : List Char} : rest.head? ≠ some '=' → Misspelt ['!'] rest
  /-- All the digits that are there. -/
  | tooLarge {digits rest : List Char} : digits ≠ [] → (∀ d ∈ digits, d.isDigit = true) →
      (∀ d ∈ rest.head?, d.isDigit = false) → UInt64.size ≤ Nat.ofDigitChars 10 digits 0 → Misspelt digits rest

/-! ### The symbols that are no token -/

theorem spelt_of_joins {c d : Char} (h : joins c d = true) : ∃ t w, Token.Spelt t (c :: w) := by
  simp only [joins, Bool.or_eq_true, Bool.and_eq_true, beq_iff_eq] at h
  rcases h with ⟨rfl, -⟩ | ⟨((rfl | rfl) | rfl) | rfl, -⟩
  · exact ⟨_, [], .arith .div⟩
  · exact ⟨_, [], .mark .assign⟩
  · exact ⟨_, ['='], .compare .ne⟩
  · exact ⟨_, [], .compare .lt⟩
  · exact ⟨_, [], .compare .gt⟩

theorem ofSymbol?_of_joins {c d : Char} (h : joins c d = true) : Token.ofSymbol? [c, d] ≠ none := by
  simp only [joins, Bool.or_eq_true, Bool.and_eq_true, beq_iff_eq] at h
  rcases h with ⟨rfl, rfl⟩ | ⟨((rfl | rfl) | rfl) | rfl, rfl⟩ <;> decide

theorem spelt_of_isDigit {c : Char} (h : c.isDigit = true) : ∃ t w, Token.Spelt t (c :: w) := by
  have hlt : Nat.ofDigitChars 10 [c] 0 < UInt64.size := by
    have hle : c.toNat ≤ 57 := (Char.isDigit_iff_toNat.1 h).2
    simp [Nat.ofDigitChars, UInt64.size]
    omega
  exact ⟨.number (UInt64.ofNatLT _ hlt), [], .number (by simp) (by simpa using h) (by simp)⟩

theorem spelt_of_isNameStart {c : Char} (h : isNameStart c = true) : ∃ t w, Token.Spelt t (c :: w) :=
  ⟨_, [], Token.spelt_ofWord ⟨c, [], by simp, h, by simp⟩⟩

theorem spelt_of_isNameChar {c : Char} (h : isNameChar c = true) : ∃ t w, Token.Spelt t (c :: w) := by
  simp only [isNameChar, Char.isAlphanum, Bool.or_eq_true] at h
  rcases h with (h | h) | h
  · exact spelt_of_isNameStart (by simp [isNameStart, h])
  · exact spelt_of_isDigit h
  · exact spelt_of_isNameStart (by simp [isNameStart, h])

theorem eq_false_of_not_spelt {c : Char} (hnone : ∀ t w, ¬Token.Spelt t (c :: w)) {b : Bool}
    (h : b = true → ∃ t w, Token.Spelt t (c :: w)) : b = false := by
  cases b with
  | false => rfl
  | true =>
    obtain ⟨t, w, hspelt⟩ := h rfl
    exact absurd hspelt (hnone t w)

/-- What a spelling can begin with. -/
theorem Token.Spelt.first {t : Token} {c : Char} {w : List Char} (h : t.Spelt (c :: w)) :
    c.isDigit = true ∨ isNameStart c = true ∨ c = '!' ∨ Token.ofSymbol? [c] ≠ none := by
  generalize hcs : c :: w = cs at h
  cases h with
  | number _ hdigits _ => exact .inl (hdigits c (by simp [← hcs]))
  | name hx _ =>
    rcases hx with ⟨d, v, hx, hd, -⟩
    rw [hx] at hcs
    exact .inr (.inl ((List.cons.inj hcs).1 ▸ hd))
  | word k =>
    obtain ⟨d, v, hx, hd, -⟩ := k.isName_spelling
    rw [hx] at hcs
    exact .inr (.inl ((List.cons.inj hcs).1 ▸ hd))
  | arith op => cases op <;> cases hcs <;> exact .inr (.inr (.inr (by decide)))
  | compare op =>
    cases op with
    | ne =>
      cases hcs
      exact .inr (.inr (.inl rfl))
    | eq | lt | gt | le | ge => cases hcs; exact .inr (.inr (.inr (by decide)))
  | mark m => cases m <;> cases hcs <;> exact .inr (.inr (.inr (by decide)))
  | twoSlashes | newline => cases hcs; exact .inr (.inr (.inr (by decide)))

/-! ### A bad lexeme is cut off whole, and nothing else is bad -/

theorem Misspelt.munch {x rest : List Char} (h : Misspelt x rest) :
    ∃ c w, x = c :: w ∧ isBlank c = false ∧ ScriptToC.munch c (w ++ rest) = (x, rest) ∧ Token.ofSpelling? x = none := by
  cases h with
  | @stray c _ hblank hnone =>
    have hdigit : c.isDigit = false := eq_false_of_not_spelt hnone spelt_of_isDigit
    have hname : isNameStart c = false := eq_false_of_not_spelt hnone spelt_of_isNameStart
    have hjoins : ∀ d, joins c d = false := fun d => eq_false_of_not_spelt hnone spelt_of_joins
    refine ⟨c, [], rfl, hblank, munch_one hdigit hname (fun d _ => hjoins d), ?_⟩
    rw [Token.ofSpelling?, if_neg (by simp [hdigit]), if_neg (by simp [hname])]
    cases hsymbol : Token.ofSymbol? [c] with
    | none => rfl
    | some t => exact absurd (Token.spelt_of_ofSymbol? hsymbol) (hnone t [])
  | bang hrest =>
    have hapart : ∀ d ∈ rest.head?, d ≠ '=' := fun d hd heq => hrest (heq ▸ hd)
    exact ⟨'!', [], rfl, rfl, munch_apart rfl rfl (by simp [joins]) hapart, rfl⟩
  | tooLarge hne hdigits hrest hlarge =>
    obtain ⟨c, cs, rfl⟩ := List.exists_cons_of_ne_nil hne
    obtain ⟨hc, hcs⟩ := List.forall_mem_cons.1 hdigits
    obtain ⟨htake, hdrop⟩ := takeWhile_run hcs hrest
    refine ⟨c, cs, rfl, not_isBlank hc rfl, by rw [munch_digit hc, htake, hdrop], ?_⟩
    rw [Token.ofSpelling?, if_pos hc]
    exact dif_neg (Nat.not_lt.2 hlarge)

theorem misspelt_of_munch {c : Char} {tail : List Char} (hblank : isBlank c = false)
    (h : Token.ofSpelling? (munch c tail).1 = none) : Misspelt (munch c tail).1 (munch c tail).2 := by
  cases hdigit : c.isDigit with
  | true =>
    rw [munch_digit hdigit] at h ⊢
    rw [Token.ofSpelling?, if_pos hdigit] at h
    refine .tooLarge (by simp) (List.forall_mem_cons.2 ⟨hdigit, fun d hd => ?_⟩) (fun d hd => head?_dropWhile hd) ?_
    · exact List.all_eq_true.1 List.all_takeWhile d hd
    · unfold Token.ofDigits? at h
      dsimp only at h
      split at h
      · cases h
      · exact Nat.not_lt.1 ‹_›
  | false =>
    cases hname : isNameStart c with
    | true =>
      rw [munch_name hname, Token.ofSpelling?, if_neg (by simp [hdigit]), if_pos hname] at h
      cases h
    | false =>
      have hsymbol : ∀ w, Token.ofSpelling? (c :: w) = Token.ofSymbol? (c :: w) := by
        simp [Token.ofSpelling?, hdigit, hname]
      rcases munch_symbol hdigit hname tail with ⟨hm, hapart⟩ | ⟨d, rest, hm, hjoins⟩
      · rw [hm] at h ⊢
        by_cases hbang : c = '!'
        · subst hbang
          exact .bang (fun heq => by simpa [joins] using hapart '=' heq)
        · refine .stray hblank (fun t w hspelt => ?_)
          rcases hspelt.first with hc | hc | hc | hc
          · rw [hdigit] at hc
            cases hc
          · rw [hname] at hc
            cases hc
          · exact hbang hc
          · exact hc ((hsymbol []).symm.trans h)
      · rw [hm, hsymbol] at h
        exact absurd h (ofSymbol?_of_joins hjoins)

/-! ## Texts with a bad lexeme -/

/-- Digits directly behind a letter, a digit or an underscore belong to the lexeme there. -/
def StandsApart (front x : List Char) : Prop :=
  (∀ d ∈ x.head?, d.isDigit = true) → ∀ c ∈ front.getLast?, isNameChar c = false

/-- The text is cut into tokens up to the lexeme `x`, which is none. -/
structure StopsAt (text front x rest : List Char) : Prop where
  text : text = front ++ (x ++ rest)
  cut : ∃ ts, Tokenizes front ts
  apart : StandsApart front x
  misspelt : Misspelt x rest

theorem standsApart_append_iff {p q : List Char} (hq : q ≠ []) (x : List Char) :
    StandsApart (p ++ q) x ↔ StandsApart q x := by
  rw [StandsApart, StandsApart, List.getLast?_append_of_ne_nil p hq]

theorem StandsApart.behind {p q x : List Char} (h : StandsApart (p ++ q) x) : StandsApart q x := by
  by_cases hq : q = []
  · subst hq
    intro _ c hc
    cases hc
  · exact (standsApart_append_iff hq x).1 h

theorem exists_last_isNameChar {w : List Char} (hne : w ≠ []) (h : ∀ c ∈ w, isNameChar c = true) :
    ∃ c ∈ w.getLast?, isNameChar c = true :=
  ⟨w.getLast hne, List.getLast?_eq_some_getLast hne, h _ (List.getLast_mem hne)⟩

theorem IsName.exists_last {x : String} (h : IsName x) : ∃ c ∈ x.toList.getLast?, ScriptToC.isNameChar c = true := by
  refine exists_last_isNameChar (fun hnil => ?_) h.isNameChar
  rcases h with ⟨c, cs, hx, -⟩
  rw [hnil] at hx
  cases hx

/-- Symbols have no letters. -/
theorem Token.Spelt.last_of_symbol {t : Token} {w : List Char} (h : t.Spelt w)
    (ht : t = .newline ∨ (∃ op, t = .arith op) ∨ (∃ op, t = .compare op) ∨ ∃ m, t = .mark m) {c : Char}
    (hc : c ∈ w.getLast?) : isNameChar c = false := by
  cases h with
  | arith op => cases op <;> cases hc <;> rfl
  | compare op => cases op <;> cases hc <;> rfl
  | mark m => cases m <;> cases hc <;> rfl
  | twoSlashes | newline => cases hc; rfl
  | number _ _ _ | name _ _ | word _ => simp at ht

/-- A digit goes on with numbers, names and keywords, whose last character tells that they are. -/
theorem Token.Spelt.fuses_digit_iff {t : Token} {w : List Char} (h : t.Spelt w) {d : Char} (hd : d.isDigit = true) :
    Fuses t w d ↔ ∃ c ∈ w.getLast?, isNameChar c = true := by
  have hspelt := h
  cases h with
  | number hne hdigits _ =>
    exact iff_of_true (.number hd) (exists_last_isNameChar hne fun c hc => isNameChar_of_isDigit (hdigits c hc))
  | name hx _ => exact iff_of_true (.name (isNameChar_of_isDigit hd)) hx.exists_last
  | word k => exact iff_of_true (.word (isNameChar_of_isDigit hd)) k.isName_spelling.exists_last
  | arith op | twoSlashes | compare op | mark m | newline =>
    refine iff_of_false (fun hfuses => ?_) (fun hlast => ?_)
    · cases hfuses <;> exact absurd hd (by decide)
    · obtain ⟨c, hc, hname⟩ := hlast
      rw [hspelt.last_of_symbol (by simp) hc] at hname
      cases hname

/-- A bad lexeme that stands apart makes nothing in front of it longer. -/
theorem Misspelt.not_fuses {x rest w : List Char} (h : Misspelt x rest) {t : Token} (hspelt : t.Spelt w)
    (hapart : StandsApart w x) : ∀ d ∈ x.head?, ¬Fuses t w d := by
  intro d hd hfuses
  cases h with
  | stray _ hnone =>
    cases hd
    have hname : isNameChar d = false := eq_false_of_not_spelt hnone spelt_of_isNameChar
    cases hfuses with
    | name hc | word hc =>
      rw [hname] at hc
      cases hc
    | number hc =>
      rw [isNameChar_of_isDigit hc] at hname
      cases hname
    | slash => exact hnone _ [] (.arith .div)
    | assign | less | greater => exact hnone _ [] (.mark .assign)
  | bang _ =>
    cases hd
    cases hfuses with
    | name hc | word hc | number hc => exact absurd hc (by decide)
  | tooLarge _ hdigits _ _ =>
    have hdigit := hdigits d (List.mem_of_mem_head? hd)
    obtain ⟨c, hc, hname⟩ := (hspelt.fuses_digit_iff hdigit).1 hfuses
    have hnot := hapart (fun e he => hdigits e (List.mem_of_mem_head? he)) c hc
    rw [hname] at hnot
    cases hnot

theorem Misspelt.not_break {x rest : List Char} (h : Misspelt x rest) : '\n' ∉ x := by
  intro hmem
  cases h with
  | stray _ hnone =>
    rw [← List.mem_singleton.1 hmem] at hnone
    exact hnone .newline [] .newline
  | bang _ => exact absurd hmem (by decide)
  | tooLarge _ hdigits _ _ => exact absurd (hdigits _ hmem) (by decide)

/-- A lexeme stays bad if what follows it is changed behind the first character, or begins with one that is
    no digit and no equals sign. -/
theorem Misspelt.before {x rest rest' : List Char} (h : Misspelt x rest)
    (hrest : ∀ d ∈ rest'.head?, d ∈ rest.head? ∨ d ≠ '=' ∧ d.isDigit = false) : Misspelt x rest' := by
  cases h with
  | stray hblank hnone => exact .stray hblank hnone
  | bang hnot =>
    refine .bang (fun heq => ?_)
    rcases hrest _ heq with hd | hd
    · exact hnot hd
    · exact hd.1 rfl
  | tooLarge hne hdigits hnot hlarge =>
    refine .tooLarge hne hdigits (fun d hd => ?_) hlarge
    rcases hrest d hd with hd | hd
    · exact hnot d hd
    · exact hd.2

theorem Misspelt.ne_nil {x rest : List Char} (h : Misspelt x rest) : x ≠ [] := by
  obtain ⟨c, w, rfl, -⟩ := h.munch
  exact List.cons_ne_nil c w

theorem Scanned.scan_misspelt {lineStart : Bool} {front : List Char} {l : Lexed} (h : Scanned lineStart front l)
    {x rest : List Char} (hx : Misspelt x rest) (hapart : StandsApart front x) (p : Place) :
    Source.scan lineStart ⟨front ++ (x ++ rest), p⟩ =
      (.error ⟨String.ofList x, p.after front⟩, ⟨rest, (p.after front).after x⟩) := by
  induction h generalizing p with
  | blanks hblanks =>
    obtain ⟨c, w, rfl, hc, hmunch, hbad⟩ := hx.munch
    rw [List.cons_append, Source.scan_bad hblanks hc (by rw [hmunch]; exact hbad), hmunch]
  | @newline _ blanks tail _ hblanks _ ih =>
    have hbehind : StandsApart tail x := by
      rw [← List.singleton_append, ← List.append_assoc] at hapart
      exact hapart.behind
    rw [List.append_assoc, List.cons_append,
      Source.scan_token hblanks rfl (by rw [munch_break]; rfl), munch_break, decide_eq_true rfl, ih hbehind,
      Place.after_append]
    rfl
  | @lexeme _ blanks c tail t l hblanks hc ht hne _ ih =>
    obtain ⟨hspelt, hfuses⟩ := spelt_of_munch ht
    obtain ⟨w, behind, hm⟩ : ∃ w behind, munch c tail = (w, behind) := ⟨_, _, rfl⟩
    have hsplit : w ++ behind = c :: tail := by rw [← munch_append, hm]
    rw [hm] at hspelt hfuses ih ht
    rw [← hsplit] at hapart ⊢
    have hbehind : StandsApart behind x := by
      rw [← List.append_assoc] at hapart
      exact hapart.behind
    -- The lexeme is cut off as before: what is behind it is the same, or it is the bad lexeme.
    have hnot : ∀ d ∈ (behind ++ (x ++ rest)).head?, ¬Fuses t w d := by
      intro d hd
      by_cases hnil : behind = []
      · subst hnil
        rw [List.append_nil] at hapart
        rw [List.nil_append, List.head?_append_of_ne_nil x hx.ne_nil] at hd
        exact hx.not_fuses hspelt hapart.behind d hd
      · rw [List.head?_append_of_ne_nil behind hnil] at hd
        exact hfuses d hd
    obtain ⟨c', v, rfl, hmunch⟩ := hspelt.munch hnot
    obtain rfl : c' = c := (List.cons.inj hsplit).1
    rw [List.append_assoc, List.append_assoc, List.cons_append,
      Source.scan_token hblanks hc (by rw [hmunch]; exact ht), hmunch, decide_eq_false hne, ih hbehind,
      Place.after_append, Place.after_append]
    rfl

/-- A text with a bad lexeme is rejected for the first one. -/
theorem StopsAt.scan {text front x rest : List Char} (h : StopsAt text front x rest) (lineStart : Bool) (p : Place) :
    Source.scan lineStart ⟨text, p⟩ = (.error ⟨String.ofList x, p.after front⟩, ⟨rest, (p.after front).after x⟩) := by
  obtain ⟨ts, hts⟩ := h.cut
  obtain ⟨layout, hscanned⟩ := hts.scanned lineStart
  rw [h.text]
  exact hscanned.scan_misspelt h.misspelt h.apart p

theorem standsApart_of_blanks {blanks : List Char} (h : ∀ b ∈ blanks, isBlank b = true) (x : List Char) :
    StandsApart blanks x := by
  intro _ c hc
  by_cases hname : isNameChar c = true
  · have hblank := h c (List.mem_of_getLast? hc)
    rw [not_isBlank hname rfl] at hblank
    cases hblank
  · exact Bool.not_eq_true _ ▸ hname

/-- A token in front of a text with a bad lexeme. -/
theorem StopsAt.lexeme {text front x rest w : List Char} {t : Token} (h : StopsAt text front x rest)
    (hspelt : t.Spelt w) (hfuses : ∀ d ∈ text.head?, ¬Fuses t w d) : StopsAt (w ++ text) (w ++ front) x rest := by
  rcases h with ⟨rfl, ⟨ts, hts⟩, hapart, hx⟩
  by_cases hnil : front = []
  · subst hnil
    refine ⟨by simp, ⟨t :: ts, .lexeme hspelt (by simp) hts⟩, fun hdigits c hc => ?_, hx⟩
    obtain ⟨d, v, rfl⟩ := List.exists_cons_of_ne_nil hx.ne_nil
    rw [List.append_nil] at hc
    by_cases hname : isNameChar c = true
    · exact absurd ((hspelt.fuses_digit_iff (hdigits d rfl)).2 ⟨c, hc, hname⟩) (hfuses d rfl)
    · exact Bool.not_eq_true _ ▸ hname
  · rw [List.head?_append_of_ne_nil front hnil] at hfuses
    exact ⟨by simp, ⟨t :: ts, .lexeme hspelt hfuses hts⟩, (standsApart_append_iff hnil x).2 hapart, hx⟩

theorem StopsAt.blanks {text front x rest blanks : List Char} (h : StopsAt text front x rest)
    (hblanks : ∀ b ∈ blanks, isBlank b = true) : StopsAt (blanks ++ text) (blanks ++ front) x rest := by
  rcases h with ⟨rfl, ⟨ts, hts⟩, hapart, hx⟩
  refine ⟨by simp, ⟨ts, hts.blanks hblanks⟩, ?_, hx⟩
  by_cases hnil : front = []
  · subst hnil
    simpa using standsApart_of_blanks hblanks x
  · exact (standsApart_append_iff hnil x).2 hapart

theorem Source.stopsAt_of_scan {lineStart : Bool} {text : List Char} {p : Place} {e : BadLexeme}
    (h : (Source.scan lineStart ⟨text, p⟩).1 = .error e) :
    ∃ front x rest, StopsAt text front x rest ∧ e = ⟨String.ofList x, p.after front⟩ := by
  rcases exists_blanks text with hall | ⟨blanks, c, tail, rfl, hblanks, hc⟩
  · rw [scan_blanks hall] at h
    cases h
  · cases ht : Token.ofSpelling? (munch c tail).1 with
    | none =>
      rw [scan_bad hblanks hc ht] at h
      cases h
      have hstops : StopsAt (c :: tail) [] (munch c tail).1 (munch c tail).2 :=
        ⟨(munch_append c tail).symm, ⟨[], .nil⟩, (fun _ d hd => by cases hd), misspelt_of_munch hc ht⟩
      refine ⟨_, _, _, hstops.blanks hblanks, ?_⟩
      rw [List.append_nil]
    | some t =>
      rw [scan_token hblanks hc ht] at h
      obtain ⟨hspelt, hfuses⟩ := spelt_of_munch ht
      cases hscan : (scan (t = .newline) ⟨(munch c tail).2, (p.after blanks).after (munch c tail).1⟩).1 with
      | ok l =>
        rw [hscan] at h
        cases h
      | error e' =>
        rw [hscan] at h
        cases h
        obtain ⟨front, x, rest, hstops, rfl⟩ := stopsAt_of_scan hscan
        have hwhole := (hstops.lexeme hspelt hfuses).blanks hblanks
        rw [munch_append] at hwhole
        refine ⟨_, x, rest, hwhole, ?_⟩
        rw [Place.after_append, Place.after_append]
termination_by text.length
decreasing_by
  have := munch_shorter c tail
  simp_all only [List.length_append, List.length_cons]
  omega

/-- Whether a text has a bad lexeme, which is the first and where. -/
theorem Lexed.ofString_eq_error_iff {text : String} {e : BadLexeme} :
    Lexed.ofString text = .error e ↔
      ∃ front x rest, StopsAt text.toList front x rest ∧ e = ⟨String.ofList x, Place.start.after front⟩ := by
  constructor
  · exact Source.stopsAt_of_scan
  · rintro ⟨front, x, rest, hstops, rfl⟩
    exact congrArg Prod.fst (hstops.scan true Place.start)

/-! ## The place of the bad lexeme -/

theorem Place.after_start (text : List Char) :
    Place.start.after text = ⟨1 + text.count '\n', 1 + (text.rtakeWhile (· != '\n')).length⟩ := by
  induction text using List.reverseRecOn with
  | nil => rfl
  | append_singleton text c ih =>
    rw [Place.after_append, ih, Place.after_cons, Place.after_nil, Place.next, List.count_append]
    by_cases hc : c = '\n'
    · rw [if_pos hc, hc, List.rtakeWhile_concat_neg _ _ _ (by simp)]
      rfl
    · rw [if_neg hc, List.count_cons_of_ne hc, List.rtakeWhile_concat_pos _ _ _ (by simpa using hc),
        List.length_append]
      rfl

/-- A place in a text, where that text begins at `p`: only on its first line do columns change. -/
def Place.movedTo (p q : Place) : Place :=
  ⟨p.line + (q.line - 1), if q.line = 1 then p.column + (q.column - 1) else q.column⟩

theorem Place.movedTo_next (p : Place) (lines columns : Nat) (c : Char) :
    (p.movedTo ⟨1 + lines, 1 + columns⟩).next c = p.movedTo (Place.next ⟨1 + lines, 1 + columns⟩ c) := by
  unfold Place.next Place.movedTo
  by_cases hc : c = '\n'
  · rw [if_pos hc, if_pos hc]
    dsimp only
    rw [if_neg (by omega), Place.mk.injEq]
    exact ⟨by omega, rfl⟩
  · rw [if_neg hc, if_neg hc]
    dsimp only
    by_cases hline : 1 + lines = 1
    · rw [if_pos hline, if_pos hline, Place.mk.injEq]
      exact ⟨rfl, by omega⟩
    · rw [if_neg hline, if_neg hline]

theorem Place.after_eq_movedTo (p : Place) (text : List Char) : p.after text = p.movedTo (Place.start.after text) := by
  induction text using List.reverseRecOn with
  | nil => rfl
  | append_singleton text c ih =>
    rw [Place.after_append, Place.after_append, ih, Place.after_start]
    exact Place.movedTo_next p _ _ c

theorem Place.after_of_line_eq {p : Place} {text : List Char} (h : (p.after text).line = p.line) :
    p.after text = ⟨p.line, p.column + text.length⟩ := by
  have hnone : '\n' ∉ text := by
    rw [Place.line_after] at h
    exact List.count_eq_zero.1 (by omega)
  clear h
  induction text generalizing p with
  | nil => rfl
  | cons c text ih =>
    obtain ⟨hc, htext⟩ := List.ne_and_not_mem_of_not_mem_cons hnone
    rw [Place.after_cons, ih htext, Place.next, if_neg (Ne.symm hc), List.length_cons, Nat.add_assoc, Nat.add_comm 1]

/-- A place in a text is reached once. -/
theorem Place.eq_nil_of_after {p : Place} {text : List Char} (h : p.after text = p) : text = [] := by
  have hcolumn := congrArg Place.column (Place.after_of_line_eq (congrArg Place.line h))
  rw [h] at hcolumn
  dsimp only at hcolumn
  exact List.length_eq_zero_iff.1 (by omega)

theorem Place.front_inj {p : Place} {text front front' : List Char} (h : front <+: text) (h' : front' <+: text)
    (hplace : p.after front = p.after front') : front = front' := by
  rcases List.prefix_or_prefix_of_prefix h h' with ⟨between, rfl⟩ | ⟨between, rfl⟩
  · rw [Place.after_append] at hplace
    rw [Place.eq_nil_of_after hplace.symm, List.append_nil]
  · rw [Place.after_append] at hplace
    rw [Place.eq_nil_of_after hplace, List.append_nil]

/-- What a report of a bad lexeme tells of a text: it is cut in two there, with tokens in front. -/
structure BadLexeme.Cuts (e : BadLexeme) (text front behind : String) : Prop where
  text : text = front ++ e.spelling ++ behind
  spelling : e.spelling ≠ ""
  lexed : ∃ lexed, Lexed.ofString front = .ok lexed
  line : e.place.line = 1 + front.toList.count '\n'
  column : e.place.column = 1 + (front.toList.rtakeWhile (· != '\n')).length
  misspelt : Misspelt e.spelling.toList behind.toList

theorem BadLexeme.Cuts.place {e : BadLexeme} {text front behind : String} (h : e.Cuts text front behind) :
    Place.start.after front.toList = e.place := by
  rw [Place.after_start, ← h.line, ← h.column]

theorem BadLexeme.Cuts.unique {e : BadLexeme} {text front behind front' behind' : String}
    (h : e.Cuts text front behind) (h' : e.Cuts text front' behind') : (front, behind) = (front', behind') := by
  have htext := congrArg String.toList h.text
  have htext' := congrArg String.toList h'.text
  rw [String.toList_append, String.toList_append, List.append_assoc] at htext htext'
  have hfront : front.toList = front'.toList :=
    Place.front_inj ⟨_, htext.symm⟩ ⟨_, htext'.symm⟩ (h.place.trans h'.place.symm)
  rw [htext, hfront] at htext'
  have hbehind := List.append_cancel_left (List.append_cancel_left htext')
  rw [String.toList_inj.1 hfront, String.toList_inj.1 hbehind]

/-- A text is rejected for a lexeme that is no token with tokens in front of it, there is one way to cut
    the text there, and every such lexeme is reported, with its place. -/
theorem bad_lexeme_exact :
    (∀ text e, Lexed.ofString text = .error e → ∃! parts : String × String, e.Cuts text parts.1 parts.2) ∧
      ∀ front spelling behind : String, (∃ lexed, Lexed.ofString front = .ok lexed) →
        (∀ c ∈ front.toList.getLast?, isNameChar c = false) → Misspelt spelling.toList behind.toList →
          Lexed.ofString (front ++ spelling ++ behind) =
            .error ⟨spelling, 1 + front.toList.count '\n', 1 + (front.toList.rtakeWhile (· != '\n')).length⟩ := by
  constructor
  · intro text e h
    obtain ⟨front, x, rest, ⟨htext, ⟨ts, hts⟩, -, hx⟩, rfl⟩ := Lexed.ofString_eq_error_iff.1 h
    obtain ⟨layout, hscanned⟩ := hts.scanned true
    have hcuts : BadLexeme.Cuts ⟨String.ofList x, Place.start.after front⟩ text (String.ofList front)
        (String.ofList rest) := by
      refine ⟨?_, by simpa using hx.ne_nil, ⟨_, Lexed.ofString_eq_ok_iff.2 (by simpa using hscanned)⟩, ?_, ?_, ?_⟩
      · rw [← String.toList_inj]
        simpa using htext
      · rw [Place.after_start, String.toList_ofList]
      · rw [Place.after_start, String.toList_ofList]
      · simpa using hx
    exact ⟨(String.ofList front, String.ofList rest), hcuts, fun parts hparts => hparts.unique hcuts⟩
  · intro front spelling behind hfront hlast hx
    obtain ⟨lexed, hlexed⟩ := hfront
    refine Lexed.ofString_eq_error_iff.2 ⟨front.toList, spelling.toList, behind.toList, ⟨?_, ?_, ?_, hx⟩, ?_⟩
    · simp
    · exact ⟨_, (Lexed.ofString_eq_ok_iff.1 hlexed).tokenizes⟩
    · exact fun _ => hlast
    · rw [Place.after_start, String.ofList_toList]

theorem a_bang_on_the_second_line :
    Lexed.ofString ("x = 1\ny = " ++ "!" ++ "2") = .error ⟨"!", 2, 5⟩ ∧
      ∃! parts : String × String, BadLexeme.Cuts ⟨"!", 2, 5⟩ ("x = 1\ny = " ++ "!" ++ "2") parts.1 parts.2 := by
  let tokens : List Token :=
    [.name "x", .mark .assign, .number 1, .newline, .name "y", .mark .assign]
  have hfront : Lexed.ofString "x = 1\ny = " = .ok ⟨tokens, ⟨[0, 0]⟩⟩ := Except.eq_ok_of_toOption (by decide +kernel)
  have hlast : ∀ c ∈ "x = 1\ny = ".toList.getLast?, isNameChar c = false := by
    rintro _ ⟨⟩
    rfl
  have herror := bad_lexeme_exact.2 "x = 1\ny = " "!" "2" ⟨_, hfront⟩ hlast (.bang (by decide))
  exact ⟨herror, bad_lexeme_exact.1 _ _ herror⟩

end ScriptToC
