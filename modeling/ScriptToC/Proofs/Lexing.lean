/-
  ScriptToC.Proofs.Lexing — the texts that are cut into tokens, said by their pieces: blanks, a
  lexeme, and the rest (`Source.scan_eq_ok_iff`).
-/

import ScriptToC.Lexed

namespace ScriptToC

/-! ## Runs of characters -/

theorem takeWhile_run {p : Char → Bool} {cs rest : List Char} (hcs : ∀ c ∈ cs, p c = true)
    (hrest : ∀ c ∈ rest.head?, p c = false) : (cs ++ rest).takeWhile p = cs ∧ (cs ++ rest).dropWhile p = rest := by
  rw [List.takeWhile_append_of_pos hcs, List.dropWhile_append_of_pos hcs]
  rcases rest with _ | ⟨d, rest⟩
  · simp
  · simp [hrest d rfl]

theorem head?_dropWhile {p : Char → Bool} {cs : List Char} {c : Char} (h : c ∈ (cs.dropWhile p).head?) :
    p c = false := by
  have hnot := List.head?_dropWhile_not p cs
  rw [h] at hnot
  exact hnot

/-- A character of one kind is not of another whose characters are all among `cs`, if none of these is of
    the first. -/
theorem kinds_apart {p q : Char → Bool} {cs : List Char} (hq : ∀ d, q d = true → d ∈ cs)
    (hp : cs.all (fun d => !p d) = true) {c : Char} (hc : p c = true) : q c = false := by
  rw [← Bool.not_eq_true]
  intro h
  have hnot := List.all_eq_true.1 hp c (hq c h)
  rw [hc] at hnot
  cases hnot

/-! ## One step -/

/-- A text is blank, or has blanks and then a lexeme. -/
theorem exists_blanks (cs : List Char) :
    (∀ c ∈ cs, isBlank c = true) ∨
      ∃ blanks c tail, cs = blanks ++ c :: tail ∧ (∀ b ∈ blanks, isBlank b = true) ∧ isBlank c = false := by
  induction cs with
  | nil => exact .inl (by simp)
  | cons d ds ih =>
    cases hd : isBlank d with
    | false => exact .inr ⟨[], d, ds, rfl, by simp, hd⟩
    | true =>
      rcases ih with hall | ⟨blanks, c, tail, rfl, hblanks, hc⟩
      · exact .inl (by simpa [hd] using hall)
      · exact .inr ⟨d :: blanks, c, tail, rfl, by simpa [hd] using hblanks, hc⟩

theorem takeWhile_blanks {blanks : List Char} (h : ∀ b ∈ blanks, isBlank b = true) :
    blanks.takeWhile isBlank = blanks := by
  simpa using @List.takeWhile_append_of_pos _ isBlank blanks [] h

theorem takeWhile_isBlank {blanks : List Char} (h : ∀ b ∈ blanks, isBlank b = true) {c : Char}
    (hc : isBlank c = false) (tail : List Char) : (blanks ++ c :: tail).takeWhile isBlank = blanks := by
  rw [List.takeWhile_append_of_pos h]
  simp [hc]

theorem dropWhile_isBlank {blanks : List Char} (h : ∀ b ∈ blanks, isBlank b = true) {c : Char}
    (hc : isBlank c = false) (tail : List Char) : (blanks ++ c :: tail).dropWhile isBlank = c :: tail := by
  rw [List.dropWhile_append_of_pos h]
  simp [hc]

namespace Source

variable {lineStart : Bool} {blanks tail : List Char} {c : Char} {p : Place}

theorem scan_blanks (h : ∀ b ∈ blanks, isBlank b = true) :
    scan lineStart ⟨blanks, p⟩ =
      (.ok ⟨[], ⟨if lineStart then [blanks.length] else []⟩⟩, ⟨[], p.after blanks⟩) := by
  have hdrop : blanks.dropWhile isBlank = [] := by
    simpa using @List.dropWhile_append_of_pos _ isBlank blanks [] h
  rw [scan]
  split
  · simp only [takeWhile_blanks h]
  · rename_i c' tail' hcons
    rw [hdrop] at hcons
    cases hcons

/-- What a source does with the first lexeme that is ahead. -/
theorem scan_cons (h : ∀ b ∈ blanks, isBlank b = true) (hc : isBlank c = false) :
    scan lineStart ⟨blanks ++ c :: tail, p⟩ =
      let next : Source := ⟨(munch c tail).2, (p.after blanks).after (munch c tail).1⟩
      match Token.ofSpelling? (munch c tail).1 with
      | none => (.error ⟨String.ofList (munch c tail).1, p.after blanks⟩, next)
      | some t =>
        ((scan (t = .newline) next).1.map (Lexed.prepend (if lineStart then [blanks.length] else []) t),
          (scan (t = .newline) next).2) := by
  rw [scan]
  split
  · rename_i hnil
    rw [dropWhile_isBlank h hc] at hnil
    cases hnil
  · rename_i c' tail' hcons
    rw [dropWhile_isBlank h hc] at hcons
    cases hcons
    cases ht : Token.ofSpelling? (munch c tail).1 with
    | none => simp only [takeWhile_isBlank h hc, ht]
    | some t => simp only [takeWhile_isBlank h hc, ht]

theorem scan_bad (h : ∀ b ∈ blanks, isBlank b = true) (hc : isBlank c = false)
    (hbad : Token.ofSpelling? (munch c tail).1 = none) :
    scan lineStart ⟨blanks ++ c :: tail, p⟩ =
      (.error ⟨String.ofList (munch c tail).1, p.after blanks⟩,
        ⟨(munch c tail).2, (p.after blanks).after (munch c tail).1⟩) := by
  rw [scan_cons h hc, hbad]

theorem scan_token (h : ∀ b ∈ blanks, isBlank b = true) (hc : isBlank c = false) {t : Token}
    (ht : Token.ofSpelling? (munch c tail).1 = some t) :
    scan lineStart ⟨blanks ++ c :: tail, p⟩ =
      ((scan (t = .newline) ⟨(munch c tail).2, (p.after blanks).after (munch c tail).1⟩).1.map
          (Lexed.prepend (if lineStart then [blanks.length] else []) t),
        (scan (t = .newline) ⟨(munch c tail).2, (p.after blanks).after (munch c tail).1⟩).2) := by
  rw [scan_cons h hc, ht]

end Source

/-! ## Line breaks and other lexemes -/

theorem munch_head (c : Char) (tail : List Char) : ∃ w, (munch c tail).1 = c :: w := by
  obtain ⟨d, w, hw⟩ := List.exists_cons_of_ne_nil (munch_ne_nil c tail)
  have happend := munch_append c tail
  rw [hw] at happend
  rw [hw, (List.cons.inj happend).1]
  exact ⟨w, rfl⟩

theorem not_break_of_isBlank {blanks : List Char} (h : ∀ b ∈ blanks, isBlank b = true) : '\n' ∉ blanks :=
  fun hmem => absurd (h _ hmem) (by decide)

theorem takeWhile_not_break {p : Char → Bool} (hp : p '\n' = false) (cs : List Char) : '\n' ∉ cs.takeWhile p := by
  intro hmem
  have := List.all_eq_true.1 List.all_takeWhile _ hmem
  simp [hp] at this

theorem eq_break_of_mem_munch {c : Char} {tail : List Char} (h : '\n' ∈ (munch c tail).1) : c = '\n' := by
  unfold munch at h
  split at h
  · rcases List.mem_cons.1 h with h | h
    · exact h.symm
    · exact absurd h (takeWhile_not_break rfl tail)
  · split at h
    · rcases List.mem_cons.1 h with h | h
      · exact h.symm
      · exact absurd h (takeWhile_not_break rfl tail)
    · split at h
      · exact (List.mem_singleton.1 h).symm
      · rename_i d tail
        split at h
        · rename_i hjoins
          rcases List.mem_cons.1 h with h | h
          · exact h.symm
          · rw [← List.mem_singleton.1 h] at hjoins
            simp [joins] at hjoins
        · exact (List.mem_singleton.1 h).symm

theorem munch_break (tail : List Char) : munch '\n' tail = (['\n'], tail) := by
  cases tail <;> simp [munch, isNameStart, joins]

theorem Token.ofDigits?_ne_newline (digits : List Char) : Token.ofDigits? digits ≠ some .newline := by
  unfold Token.ofDigits?
  dsimp only
  split <;> simp

theorem Token.ofWord_ne_newline (letters : List Char) : Token.ofWord letters ≠ .newline := by
  unfold Token.ofWord
  split <;> simp

theorem Token.ofSpelling?_eq_newline {cs : List Char} (h : Token.ofSpelling? cs = some .newline) : cs = ['\n'] := by
  unfold Token.ofSpelling? at h
  split at h
  · cases h
  · split at h
    · exact absurd h (Token.ofDigits?_ne_newline _)
    · split at h
      · exact absurd (Option.some.inj h) (Token.ofWord_ne_newline _)
      · unfold Token.ofSymbol? at h
        split at h <;> first | assumption | cases h

/-- Line breaks stand alone, and no other lexeme holds one. -/
theorem not_break_of_ne_newline {c : Char} {tail : List Char} {t : Token}
    (ht : Token.ofSpelling? (munch c tail).1 = some t) (hne : t ≠ .newline) : '\n' ∉ (munch c tail).1 := by
  intro hbreak
  obtain rfl := eq_break_of_mem_munch hbreak
  rw [munch_break] at ht
  exact hne (Option.some.inj ht).symm

/-! ## Whole texts -/

/-- The tokens and the layout of a text that has no bad lexeme. `lineStart` tells that its first
    blanks are the indentation of a line. -/
inductive Scanned : Bool → List Char → Lexed → Prop
  | blanks {lineStart : Bool} {blanks : List Char} : (∀ b ∈ blanks, isBlank b = true) →
      Scanned lineStart blanks ⟨[], ⟨if lineStart then [blanks.length] else []⟩⟩
  | newline {lineStart : Bool} {blanks tail : List Char} {l : Lexed} : (∀ b ∈ blanks, isBlank b = true) →
      Scanned true tail l →
      Scanned lineStart (blanks ++ '\n' :: tail) (l.prepend (if lineStart then [blanks.length] else []) .newline)
  | lexeme {lineStart : Bool} {blanks : List Char} {c : Char} {tail : List Char} {t : Token} {l : Lexed} :
      (∀ b ∈ blanks, isBlank b = true) → isBlank c = false →
      Token.ofSpelling? (munch c tail).1 = some t → t ≠ .newline → Scanned false (munch c tail).2 l →
      Scanned lineStart (blanks ++ c :: tail) (l.prepend (if lineStart then [blanks.length] else []) t)

theorem Except.map_eq_ok {ε α β : Type} {f : α → β} {x : Except ε α} {b : β} :
    x.map f = .ok b ↔ ∃ a, x = .ok a ∧ f a = b := by
  cases x <;> simp [Except.map]

theorem Except.eq_ok_of_toOption {ε α : Type} {x : Except ε α} {a : α} (h : x.toOption = some a) : x = .ok a := by
  cases x with
  | error e => cases h
  | ok b => exact congrArg Except.ok (Option.some.inj h)

theorem Source.scanned_of_scan {lineStart : Bool} {cs : List Char} {p : Place} {l : Lexed}
    (h : (Source.scan lineStart ⟨cs, p⟩).1 = .ok l) : Scanned lineStart cs l := by
  rcases exists_blanks cs with hall | ⟨blanks, c, tail, rfl, hblanks, hc⟩
  · rw [scan_blanks hall] at h
    cases h
    exact .blanks hall
  · cases ht : Token.ofSpelling? (munch c tail).1 with
    | none =>
      rw [scan_bad hblanks hc ht] at h
      cases h
    | some t =>
      rw [scan_token hblanks hc ht] at h
      obtain ⟨l', hl', rfl⟩ := Except.map_eq_ok.1 h
      have hrest := scanned_of_scan hl'
      by_cases hne : t = .newline
      · subst hne
        have hbreak : '\n' ∈ (munch c tail).1 := by simp [Token.ofSpelling?_eq_newline ht]
        obtain rfl := eq_break_of_mem_munch hbreak
        rw [munch_break] at hrest
        exact .newline hblanks hrest
      · rw [decide_eq_false hne] at hrest
        exact .lexeme hblanks hc ht hne hrest
termination_by cs.length
decreasing_by
  have := munch_shorter c tail
  simp_all only [List.length_append, List.length_cons]
  omega

theorem Scanned.scan {lineStart : Bool} {cs : List Char} {l : Lexed} (h : Scanned lineStart cs l) :
    ∀ p, Source.scan lineStart ⟨cs, p⟩ = (.ok l, ⟨[], p.after cs⟩) := by
  induction h with
  | blanks hblanks =>
    intro p
    rw [Source.scan_blanks hblanks]
  | newline hblanks _ ih =>
    intro p
    rw [Source.scan_token hblanks rfl (by rw [munch_break]; rfl), munch_break, decide_eq_true rfl, ih,
      Place.after_append]
    rfl
  | lexeme hblanks hc ht hne _ ih =>
    intro p
    rw [Source.scan_token hblanks hc ht, decide_eq_false hne, ih, ← Place.after_append, ← Place.after_append,
      munch_append]
    rfl

theorem Source.scan_eq_ok_iff {lineStart : Bool} {cs : List Char} {p : Place} {l : Lexed} :
    (Source.scan lineStart ⟨cs, p⟩).1 = .ok l ↔ Scanned lineStart cs l :=
  ⟨Source.scanned_of_scan, fun h => by rw [h.scan p]⟩

theorem Lexed.ofString_eq_ok_iff {text : String} {l : Lexed} :
    Lexed.ofString text = .ok l ↔ Scanned true text.toList l :=
  Source.scan_eq_ok_iff

/-! ## Numbers and names -/

theorem numberText_isDigit (n : UInt64) : ∀ c ∈ (numberText n).toList, c.isDigit = true := by
  rw [numberText, Nat.toList_repr]
  exact fun c hc => Nat.isDigit_of_mem_toDigits (by decide) (by decide) hc

theorem numberText_ne_nil (n : UInt64) : (numberText n).toList ≠ [] := by
  rw [numberText, Nat.toList_repr]
  exact Nat.toDigits_ne_nil

/-- A letter or an underscore, and then letters, digits and underscores. -/
def IsName (x : String) : Prop :=
  ∃ c cs, x.toList = c :: cs ∧ isNameStart c = true ∧ ∀ d ∈ cs, isNameChar d = true

/-- The digits come before the letters. -/
theorem lt_of_isNameStart {c : Char} (h : isNameStart c = true) : '9'.val.toNat < c.val.toNat := by
  have hlt : ∀ d : Char, '9'.val.toNat < d.val.toNat → d.val ≤ c.val → '9'.val.toNat < c.val.toNat :=
    fun _ hd hle => Nat.lt_of_lt_of_le hd (UInt32.le_iff_toNat_le.1 hle)
  simp only [isNameStart, Bool.or_eq_true, beq_iff_eq] at h
  rcases h with h | rfl
  · have hcase : (c.isUpper || c.isLower) = true := h
    rcases Bool.or_eq_true_iff.1 hcase with hupper | hlower
    · have hupper : decide (c.val ≥ 'A'.val ∧ c.val ≤ 'Z'.val) = true := hupper
      exact hlt 'A' (by decide) (of_decide_eq_true hupper).1
    · have hlower : (decide (c.val ≥ 'a'.val) && decide (c.val ≤ 'z'.val)) = true := hlower
      exact hlt 'a' (by decide) (of_decide_eq_true (Bool.and_eq_true_iff.1 hlower).1)
  · decide

theorem not_isDigit_of_isNameStart {c : Char} (h : isNameStart c = true) : c.isDigit = false := by
  rw [← Bool.not_eq_true, Char.isDigit_iff_toNat]
  exact fun hdigit => absurd hdigit.2 (Nat.not_le.2 (lt_of_isNameStart h))

theorem isNameChar_of_isNameStart {c : Char} (h : isNameStart c = true) : isNameChar c = true := by
  simp only [isNameStart, isNameChar, Char.isAlphanum, Bool.or_eq_true] at h ⊢
  rcases h with h | h
  · exact .inl (.inl h)
  · exact .inr h

theorem isNameChar_of_isDigit {c : Char} (h : c.isDigit = true) : isNameChar c = true := by
  simp [isNameChar, Char.isAlphanum, h]

theorem IsName.isNameChar {x : String} (h : IsName x) : ∀ c ∈ x.toList, ScriptToC.isNameChar c = true := by
  rcases h with ⟨d, cs, hx, hd, hcs⟩
  rw [hx]
  exact List.forall_mem_cons.2 ⟨isNameChar_of_isNameStart hd, hcs⟩

theorem IsName.not_mem {x : String} (h : IsName x) {c : Char} (hc : ScriptToC.isNameChar c = false) :
    c ∉ x.toList := by
  intro hmem
  rw [h.isNameChar c hmem] at hc
  cases hc

theorem munch_digit {c : Char} (h : c.isDigit = true) (tail : List Char) :
    munch c tail = (c :: tail.takeWhile Char.isDigit, tail.dropWhile Char.isDigit) := by
  simp [munch, h]

theorem munch_name {c : Char} (h : isNameStart c = true) (tail : List Char) :
    munch c tail = (c :: tail.takeWhile isNameChar, tail.dropWhile isNameChar) := by
  simp [munch, h, not_isDigit_of_isNameStart h]

theorem Token.ofDigits?_ne_name (digits : List Char) (x : String) : Token.ofDigits? digits ≠ some (.name x) := by
  unfold Token.ofDigits?
  dsimp only
  split <;> simp

theorem Token.ofSymbol?_ne_name (cs : List Char) (x : String) : Token.ofSymbol? cs ≠ some (.name x) := by
  unfold Token.ofSymbol?
  split <;> simp

theorem Token.ofWord_eq_name {cs : List Char} {x : String} (h : Token.ofWord cs = .name x) :
    x = String.ofList cs := by
  unfold Token.ofWord at h
  split at h <;> simp_all

theorem isName_of_munch {c : Char} {tail : List Char} {x : String}
    (h : Token.ofSpelling? (munch c tail).1 = some (.name x)) : IsName x := by
  obtain ⟨w, hw⟩ := munch_head c tail
  rw [hw, Token.ofSpelling?] at h
  split at h
  · exact absurd h (Token.ofDigits?_ne_name _ x)
  · split at h
    · rename_i hstart
      rw [munch_name hstart] at hw
      simp only [List.cons.injEq, true_and] at hw
      subst hw
      refine ⟨c, tail.takeWhile isNameChar, ?_, hstart, fun d hd => ?_⟩
      · rw [Token.ofWord_eq_name (Option.some.inj h), String.toList_ofList]
      · exact List.all_eq_true.1 List.all_takeWhile d hd
    · exact absurd h (Token.ofSymbol?_ne_name _ x)

theorem Scanned.isName {lineStart : Bool} {cs : List Char} {l : Lexed} (h : Scanned lineStart cs l) :
    ∀ x, .name x ∈ l.tokens → IsName x := by
  induction h with
  | blanks _ => simp
  | newline _ _ ih =>
    intro x hx
    rcases List.mem_cons.1 hx with hx | hx
    · cases hx
    · exact ih x hx
  | lexeme _ _ ht _ _ ih =>
    intro x hx
    rcases List.mem_cons.1 hx with rfl | hx
    · exact isName_of_munch ht
    · exact ih x hx

end ScriptToC
