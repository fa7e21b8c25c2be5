/-
  ScriptToC.Proofs.Passage — what a reader takes, said by its tokens: `c.Passes ts d` when the tokens
  `ts` lie between the cursors `c` and `d`.

  Each step of `ScriptToC.Cursor` has two lemmas: a step that is made passes its token
  (`passes_of_…`), and a step whose token lies ahead is made (`Passes.…`). Readers are proved with
  these and never look into a cursor.
-/

import ScriptToC.Program.Read

namespace ScriptToC

/-- `ts` are the tokens from `c` on, and `d` is the cursor behind them. -/
structure Cursor.Passes (c : Cursor) (ts : List Token) (d : Cursor) : Prop where
  rest : c.rest = ts ++ d.rest
  index : d.index = c.index + ts.length
  line : d.line = c.line + ts.count .newline

/-- Something is read, and `d` is the cursor behind it. -/
def Reading.Gives {α : Type} {c : Cursor} (reading : Reading α c) (a : α) (d : Cursor) : Prop :=
  ∃ lt, reading = .ok ⟨a, d, lt⟩

/-! ## Results of a do-block -/

theorem Except.bind_eq_ok {ε α β : Type} {x : Except ε α} {f : α → Except ε β} {b : β} :
    (x >>= f) = .ok b ↔ ∃ a, x = .ok a ∧ f a = .ok b := by
  cases x with
  | error e => simp [bind, Except.bind]
  | ok a => simp [bind, Except.bind]

@[simp] theorem Except.ok_bind {ε α β : Type} (a : α) (f : α → Except ε β) :
    ((Except.ok a : Except ε α) >>= f) = f a := rfl

@[simp] theorem Except.error_bind {ε α β : Type} (e : ε) (f : α → Except ε β) :
    ((Except.error e : Except ε α) >>= f) = .error e := rfl

theorem Except.bind_eq_error {ε α β : Type} {x : Except ε α} {f : α → Except ε β} {e : ε} :
    (x >>= f) = .error e ↔ x = .error e ∨ ∃ a, x = .ok a ∧ f a = .error e := by
  cases x with
  | error e => simp
  | ok a => simp

@[simp] theorem Except.pure_eq_ok {ε α : Type} (a : α) : (pure a : Except ε α) = .ok a := rfl

@[simp] theorem require_eq_ok {kept : Bool} {failure : Failure} {u : Unit} :
    require kept failure = .ok u ↔ kept = true := by
  cases kept <;> simp [require]

namespace Cursor

variable {c d e : Cursor} {t : Token} {ts us : List Token}

/-! ## Passing one run of tokens after the other -/

@[simp] theorem passes_nil : c.Passes [] d ↔ d = c := by
  constructor
  · intro h
    rcases h with ⟨hr, hi, hl⟩
    rcases c with ⟨cr, ci, cl⟩
    rcases d with ⟨dr, di, dl⟩
    simp_all
  · rintro rfl
    exact ⟨rfl, rfl, rfl⟩

theorem Passes.refl (c : Cursor) : c.Passes [] c := passes_nil.2 rfl

theorem Passes.trans (h₁ : c.Passes ts d) (h₂ : d.Passes us e) : c.Passes (ts ++ us) e := by
  refine ⟨?_, ?_, ?_⟩
  · rw [h₁.rest, h₂.rest, List.append_assoc]
  · rw [h₂.index, h₁.index, List.length_append]; omega
  · rw [h₂.line, h₁.line, List.count_append]; omega

theorem Passes.cons (h₁ : c.Passes [t] d) (h₂ : d.Passes us e) : c.Passes (t :: us) e := h₁.trans h₂

theorem Passes.unique (h₁ : c.Passes ts d) (h₂ : c.Passes ts e) : d = e := by
  rcases h₁ with ⟨hr, hi, hl⟩
  rcases h₂ with ⟨hr', hi', hl'⟩
  rcases d with ⟨dr, di, dl⟩
  rcases e with ⟨er, ei, el⟩
  simp_all

/-- A run of tokens that lies ahead can be passed in two parts. -/
theorem Passes.split (h : c.Passes (ts ++ us) e) : ∃ d, c.Passes ts d ∧ d.Passes us e := by
  refine ⟨⟨us ++ e.rest, c.index + ts.length, c.line + ts.count .newline⟩, ⟨?_, rfl, rfl⟩, rfl, ?_, ?_⟩
  · rw [h.rest, List.append_assoc]
  · rw [h.index, List.length_append]; dsimp only; omega
  · rw [h.line, List.count_append]; dsimp only; omega

theorem Passes.uncons (h : c.Passes (t :: us) e) : ∃ d, c.Passes [t] d ∧ d.Passes us e := by
  rw [← List.singleton_append] at h
  exact h.split

theorem Passes.length_lt (h : c.Passes (t :: ts) d) : d.rest.length < c.rest.length := by
  rw [h.rest, List.length_append, List.length_cons]; omega

theorem Passes.one_le_length (h : c.Passes ts d) (hshorter : d.rest.length < c.rest.length) : 1 ≤ ts.length := by
  rw [h.rest, List.length_append] at hshorter
  omega

theorem passes_start (ts us : List Token) :
    (Cursor.start (ts ++ us)).Passes ts ⟨us, ts.length, ts.count .newline⟩ :=
  ⟨rfl, by simp [start], by simp [start]⟩

/-! ## One token -/

theorem passes_of_next? {r : Read Token c} (h : c.next? = some r) : c.Passes [r.value] r.next := by
  rcases c with ⟨_ | ⟨t, ts⟩, i, l⟩
  · simp [next?] at h
  · simp only [next?, Option.some.injEq] at h
    subst h
    refine ⟨rfl, rfl, ?_⟩
    by_cases e : t = .newline <;> simp [e]

theorem Passes.next? (h : c.Passes [t] d) : ∃ lt, c.next? = some ⟨t, d, lt⟩ := by
  rcases h with ⟨hr, hi, hl⟩
  rcases c with ⟨cr, ci, cl⟩
  rcases d with ⟨dr, di, dl⟩
  simp only [List.cons_append, List.nil_append] at hr hi hl
  subst hr
  refine ⟨by simp, ?_⟩
  by_cases e : t = .newline <;> simp_all [Cursor.next?]

theorem Passes.head? (h : c.Passes (t :: ts) d) : c.rest.head? = some t := by rw [h.rest]; rfl

/-- What reads further than over the next token reads on behind it. -/
theorem Passes.rest_of (h : c.Passes [t] d) (h' : c.Passes us e) (hshorter : e.rest.length < c.rest.length) :
    ∃ vs, d.Passes vs e := by
  obtain ⟨u, vs, rfl⟩ := List.exists_cons_of_length_pos (h'.one_le_length hshorter)
  obtain ⟨d', hd', hbehind⟩ := h'.uncons
  have hhead : some t = some u := h.head?.symm.trans hd'.head?
  cases hhead
  exact ⟨vs, h.unique hd' ▸ hbehind⟩

theorem next?_of_head? (h : c.rest.head? = some t) : ∃ d lt, c.next? = some ⟨t, d, lt⟩ := by
  rcases c with ⟨_ | ⟨u, us⟩, i, l⟩
  · cases h
  · cases h
    exact ⟨_, _, rfl⟩

theorem head?_ne_of_next? (h : ∀ d lt, c.next? ≠ some ⟨t, d, lt⟩) : c.rest.head? ≠ some t := by
  intro hhead
  obtain ⟨d, lt, hnext⟩ := next?_of_head? hhead
  exact h d lt hnext

theorem passes_of_take? {r : Read Token c} (h : c.take? t = some r) : c.Passes [t] r.next := by
  simp only [take?, Option.filter_eq_some_iff, decide_eq_true_eq] at h
  rw [← h.2]
  exact passes_of_next? h.1

theorem Passes.take? (h : c.Passes [t] d) : ∃ lt, c.take? t = some ⟨t, d, lt⟩ := by
  obtain ⟨lt, hn⟩ := h.next?
  exact ⟨lt, by simp [Cursor.take?, hn]⟩

theorem take?_eq_none (h : c.rest.head? ≠ some t) : c.take? t = none := by
  cases hn : c.take? t with
  | none => rfl
  | some r => exact absurd (by rw [(passes_of_take? hn).rest]; rfl) h

theorem passes_of_expect {expected : Expectation} {r : Read Token c} (h : c.expect t expected = .ok r) :
    c.Passes [t] r.next := by
  unfold expect at h
  split at h
  · rename_i r' hr
    cases h
    exact passes_of_take? hr
  · cases h

theorem Passes.expect (h : c.Passes [t] d) (expected : Expectation) :
    ∃ lt, c.expect t expected = .ok ⟨t, d, lt⟩ := by
  obtain ⟨lt, ht⟩ := h.take?
  exact ⟨lt, by simp [Cursor.expect, ht]⟩

/-! ## Names -/

theorem passes_of_name? {r : Read String c} (h : c.name? = some r) : c.Passes [.name r.value] r.next := by
  unfold name? at h
  split at h
  · rename_i x c₁ h₁ hn
    cases h
    exact passes_of_next? hn
  · cases h

theorem Passes.name? {x : String} (h : c.Passes [.name x] d) : ∃ lt, c.name? = some ⟨x, d, lt⟩ := by
  obtain ⟨lt, hn⟩ := h.next?
  exact ⟨lt, by simp [Cursor.name?, hn]⟩

theorem passes_of_expectName {expected : Expectation} {r : Read String c}
    (h : c.expectName expected = .ok r) : c.Passes [.name r.value] r.next := by
  unfold expectName at h
  split at h
  · rename_i r' hr
    cases h
    exact passes_of_name? hr
  · cases h

theorem Passes.expectName {x : String} (h : c.Passes [.name x] d) (expected : Expectation) :
    ∃ lt, c.expectName expected = .ok ⟨x, d, lt⟩ := by
  obtain ⟨lt, hn⟩ := h.name?
  exact ⟨lt, by simp [Cursor.expectName, hn]⟩

theorem passes_of_target? {r : Read String c} (h : c.target? = some r) :
    c.Passes [.name r.value, .mark .assign] r.next := by
  unfold target? at h
  split at h
  · rename_i x c₁ h₁ hx
    split at h
    · rename_i c₂ h₂ ht
      cases h
      exact (passes_of_name? hx).trans (passes_of_take? ht)
    · cases h
  · cases h

theorem Passes.target? {x : String} (h : c.Passes [.name x, .mark .assign] d) :
    ∃ lt, c.target? = some ⟨x, d, lt⟩ := by
  obtain ⟨c₁, h₁, h₂⟩ := h.uncons
  obtain ⟨_, hx⟩ := h₁.name?
  obtain ⟨_, ht⟩ := h₂.take?
  exact ⟨h.length_lt, by simp [Cursor.target?, hx, ht]⟩

theorem target?_eq_none (h : ∀ x, c.rest.head? ≠ some (.name x)) : c.target? = none := by
  cases htarget : c.target? with
  | none => rfl
  | some r => exact absurd (passes_of_target? htarget).head? (h r.value)

/-! ## Runs of tokens of a kind -/

theorem passes_skipWhile (p : Token → Bool) (c : Cursor) : c.Passes (c.rest.takeWhile p) (c.skipWhile p) :=
  ⟨List.takeWhile_append_dropWhile.symm, rfl, rfl⟩

theorem skipWhile_eq_self {p : Token → Bool} (h : c.rest.takeWhile p = []) : c.skipWhile p = c :=
  passes_nil.1 (h ▸ passes_skipWhile p c)

theorem skipWhile_head? {p : Token → Bool} (h : (c.skipWhile p).rest.head? = some t) : p t = false := by
  have hnot := List.head?_dropWhile_not p c.rest
  rw [show (c.rest.dropWhile p).head? = some t from h] at hnot
  exact hnot

theorem skipBreaks_head? (c : Cursor) : c.skipBreaks.rest.head? ≠ some .newline := by
  intro hhead
  have hnot := skipWhile_head? hhead
  simp at hnot

theorem skipBreaks_line_eq_iff (c : Cursor) : c.skipBreaks.line = c.line ↔ c.rest.head? ≠ some .newline := by
  have hline : c.skipBreaks.line = c.line + (c.rest.takeWhile (· = .newline)).count .newline := rfl
  rw [hline]
  rcases c.rest with _ | ⟨t, ts⟩
  · simp
  · by_cases ht : t = .newline
    · simp [ht]
    · simp [ht]

/-- Tokens of the kind that something else follows are all that is skipped. -/
theorem Passes.skipWhile {p : Token → Bool} (h : c.Passes ts d) (hts : ∀ t ∈ ts, p t = true)
    (hd : ∀ t ∈ d.rest.head?, p t = false) : c.rest.takeWhile p = ts ∧ c.skipWhile p = d := by
  have htake : c.rest.takeWhile p = ts := by
    rw [h.rest, List.takeWhile_append_of_pos hts]
    rcases hr : d.rest with _ | ⟨t, _⟩
    · simp
    · have := hd t (by simp [hr])
      simp [this]
  refine ⟨htake, Passes.unique (passes_skipWhile p c) ?_⟩
  rw [htake]
  exact h

end Cursor

end ScriptToC
