/-
  ScriptToC.Proofs.ResumedLexing — reading tokens from the same source again and again (`lexing_resumes`).

  A reading either takes all that is left or stops behind a bad lexeme, which is not empty
  (`Source.lex_cases`). So the source always stands behind some front of the text, at the place that the
  front tells, and a caller that skips errors comes to the end. What is read does not depend on the place;
  only the place of an error does (`Place.after_eq_movedTo`).
-/

import ScriptToC.Proofs.BadLexemes

namespace ScriptToC

/-! ## Calls -/

/-- What a caller wants of the lexemes that are left: the tokens, or the layout as well. -/
inductive Call
  | tokens
  | tokensAndLayout
  deriving DecidableEq, Repr

def Call.view : Call → Lexed → List Token × Option Layout
  | .tokens, l => (l.tokens, none)
  | .tokensAndLayout, l => (l.tokens, some l.layout)

def Source.answer (s : Source) (call : Call) : Except BadLexeme (List Token × Option Layout) × Source :=
  (s.lex.1.map call.view, s.lex.2)

/-- The source that is left after some calls. -/
def Source.resumed (s : Source) : List Call → Source
  | [] => s
  | call :: calls => (s.answer call).2.resumed calls

theorem Source.lex_cases (s : Source) :
    (∃ l, s.lex = (.ok l, ⟨[], s.place.after s.rest⟩) ∧ Scanned true s.rest l) ∨
      ∃ front x rest, s.lex = (.error ⟨String.ofList x, s.place.after front⟩, ⟨rest, (s.place.after front).after x⟩) ∧
        StopsAt s.rest front x rest := by
  cases h : s.lex.1 with
  | ok l =>
    have hscanned := Source.scanned_of_scan h
    exact .inl ⟨l, hscanned.scan s.place, hscanned⟩
  | error e =>
    obtain ⟨front, x, rest, hstops, -⟩ := Source.stopsAt_of_scan h
    exact .inr ⟨front, x, rest, hstops.scan true s.place, hstops⟩

def BadLexeme.movedTo (p : Place) (e : BadLexeme) : BadLexeme := { e with place := p.movedTo e.place }

/-! ## One call -/

/-- A source stands behind `front` of a text, at the place that `front` tells. -/
structure Source.Stands (s : Source) (text front : List Char) : Prop where
  text : text = front ++ s.rest
  line : s.place.line = 1 + front.count '\n'
  column : s.place.column = 1 + (front.rtakeWhile (· != '\n')).length

namespace Source

variable {s : Source} {text front : List Char}

theorem stands_of_place (htext : text = front ++ s.rest) (hplace : s.place = Place.start.after front) :
    s.Stands text front := by
  rw [Place.after_start] at hplace
  exact ⟨htext, congrArg Place.line hplace, congrArg Place.column hplace⟩

theorem Stands.place (h : s.Stands text front) : s.place = Place.start.after front := by
  rw [Place.after_start, ← h.line, ← h.column]

theorem stands_ofString (script : String) : (Source.ofString script).Stands script.toList [] :=
  stands_of_place rfl rfl

theorem Stands.lex (h : s.Stands text front) : ∃ front', s.lex.2.Stands text front' := by
  rcases s.lex_cases with ⟨l, hlex, -⟩ | ⟨between, x, rest, hlex, hstops⟩
  · refine ⟨front ++ s.rest, ?_⟩
    rw [hlex]
    refine stands_of_place (by rw [h.text, List.append_nil]) ?_
    rw [Place.after_append, ← h.place]
  · refine ⟨front ++ (between ++ x), ?_⟩
    rw [hlex]
    refine stands_of_place (by rw [h.text, hstops.text]; simp) ?_
    rw [Place.after_append, Place.after_append, ← h.place]

theorem answer_eq_alone (s : Source) (call : Call) :
    (s.answer call).1 = ((Source.ofString (String.ofList s.rest)).answer call).1.mapError (.movedTo s.place) := by
  unfold answer lex Source.ofString
  rw [String.toList_ofList]
  rcases s.lex_cases with ⟨l, hlex, hscanned⟩ | ⟨front, x, rest, hlex, hstops⟩
  · rw [show s.scan true = _ from hlex, hscanned.scan]
    rfl
  · rw [show s.scan true = _ from hlex, hstops.scan, Place.after_eq_movedTo]
    rfl

/-- What an error tells of the source that is left: it is behind the lexeme. -/
structure StoppedBehind (s : Source) (e : BadLexeme) (next : Source) : Prop where
  rest : ∃ between, s.rest = between ++ (e.spelling.toList ++ next.rest) ∧ e.place = s.place.after between
  place : next.place = e.place.after e.spelling.toList
  shorter : next.rest.length < s.rest.length

theorem answer_spec (s : Source) (call : Call) :
    (∃ l p, s.answer call = (.ok (call.view l), ⟨[], p⟩)) ∨
      ∃ e next, s.answer call = (.error e, next) ∧ s.StoppedBehind e next := by
  unfold answer
  rcases s.lex_cases with ⟨l, hlex, -⟩ | ⟨front, x, rest, hlex, hstops⟩
  · rw [hlex]
    exact .inl ⟨l, _, rfl⟩
  · rw [hlex]
    refine .inr ⟨_, _, rfl, ⟨front, ?_, rfl⟩, ?_, ?_⟩
    · rw [String.toList_ofList]
      exact hstops.text
    · rw [String.toList_ofList]
    · have hpos := List.length_pos_iff.2 hstops.misspelt.ne_nil
      rw [hstops.text, List.length_append, List.length_append]
      dsimp only
      omega

/-- At the end there is one line more, which is empty. -/
theorem answer_at_end (p : Place) (call : Call) :
    Source.answer ⟨[], p⟩ call = (.ok (call.view ⟨[], ⟨[0]⟩⟩), ⟨[], p⟩) := by
  unfold answer lex
  rw [scan_blanks (List.forall_mem_nil _)]
  rfl

/-! ## One call after the other -/

theorem Stands.resumed (h : s.Stands text front) (calls : List Call) : ∃ front', (s.resumed calls).Stands text front' := by
  induction calls generalizing s front with
  | nil => exact ⟨front, h⟩
  | cons call calls ih =>
    obtain ⟨front', h'⟩ := h.lex
    exact ih h'

theorem resumed_at_end (p : Place) (calls : List Call) : Source.resumed ⟨[], p⟩ calls = ⟨[], p⟩ := by
  induction calls with
  | nil => rfl
  | cons call calls ih => rw [Source.resumed, answer_at_end, ih]

/-- Each call that fails takes a character, so one more call than there are characters does not fail. -/
theorem exists_answer_ok (s : Source) (calls : List Call) (h : s.rest.length < calls.length) :
    ∃ before call after, calls = before ++ call :: after ∧ before.length ≤ s.rest.length ∧
      ∃ r, ((s.resumed before).answer call).1 = .ok r := by
  induction calls generalizing s with
  | nil => cases h
  | cons call calls ih =>
    rcases s.answer_spec call with ⟨l, p, hok⟩ | ⟨e, next, herror, hstopped⟩
    · exact ⟨[], call, calls, rfl, Nat.zero_le _, _, congrArg Prod.fst hok⟩
    · have hshorter := hstopped.shorter
      rw [List.length_cons] at h
      obtain ⟨before, call', after, rfl, hle, r, hr⟩ := ih next (by omega)
      refine ⟨call :: before, call', after, rfl, by rw [List.length_cons]; omega, r, ?_⟩
      rw [Source.resumed, herror]
      exact hr

end Source

/-- However a source was called before, it stands where the characters that it has taken tell, and the next
    call answers as it would for the rest alone, but for the place of an error. After an error the source
    stands behind the bad lexeme and is shorter, so as many calls as there are characters and one more are
    enough for one that does not fail. Behind that there are no tokens, and one line that is empty. -/
theorem lexing_resumes (script : String) (calls : List Call) (call : Call) :
    let s := (Source.ofString script).resumed calls
    (∃ front, s.Stands script.toList front) ∧
      (s.answer call).1 = ((Source.ofString (String.ofList s.rest)).answer call).1.mapError (.movedTo s.place) ∧
      (∀ e, (s.answer call).1 = .error e → s.StoppedBehind e (s.answer call).2) ∧
      (script.length < calls.length → ∃ before call after, calls = before ++ call :: after ∧
        before.length ≤ script.length ∧ ∃ r, (((Source.ofString script).resumed before).answer call).1 = .ok r) ∧
      ∀ r, (s.answer call).1 = .ok r → ∀ calls' call',
        (((s.answer call).2.resumed calls').answer call').1 = .ok (call'.view ⟨[], ⟨[0]⟩⟩) := by
  intro s
  have hlength : (Source.ofString script).rest.length = script.length := String.length_toList
  refine ⟨(Source.stands_ofString script).resumed calls, s.answer_eq_alone call, fun e he => ?_, fun hlt => ?_,
    fun r hr calls' call' => ?_⟩
  · rcases s.answer_spec call with ⟨l, p, hok⟩ | ⟨e', next, herror, hstopped⟩
    · rw [hok] at he
      cases he
    · rw [herror] at he ⊢
      cases he
      exact hstopped
  · rw [← hlength] at hlt ⊢
    exact (Source.ofString script).exists_answer_ok calls hlt
  · rcases s.answer_spec call with ⟨l, p, hok⟩ | ⟨e, next, herror, -⟩
    · rw [hok, Source.resumed_at_end, Source.answer_at_end]
    · rw [herror] at hr
      cases hr

theorem two_errors_are_skipped :
    let script := "a\n !b ?"
    let calls := List.replicate 8 Call.tokens
    let s := (Source.ofString script).resumed [.tokens]
    s.place = ⟨2, 3⟩ ∧ (s.answer .tokens).1 = .error ⟨"?", 2, 5⟩ ∧ s.StoppedBehind ⟨"?", 2, 5⟩ (s.answer .tokens).2 ∧
      (∃ before call after, calls = before ++ call :: after ∧ before.length ≤ script.length ∧
        ∃ r, (((Source.ofString script).resumed before).answer call).1 = .ok r) ∧
      (((Source.ofString script).resumed [.tokens, .tokens, .tokens, .tokens]).answer .tokensAndLayout).1 =
        .ok ([], some ⟨[0]⟩) := by
  intro script calls s
  have herror : (s.answer .tokens).1 = .error ⟨"?", 2, 5⟩ := by decide +kernel
  have hok : (((Source.ofString script).resumed [.tokens, .tokens]).answer .tokens).1 = .ok ([], none) := by
    decide +kernel
  obtain ⟨-, -, hstopped, -, -⟩ := lexing_resumes script [.tokens] .tokens
  obtain ⟨-, -, -, hsuccess, -⟩ := lexing_resumes script calls .tokens
  obtain ⟨-, -, -, -, hend⟩ := lexing_resumes script [.tokens, .tokens] .tokens
  exact ⟨by decide +kernel, herror, hstopped _ herror, hsuccess (by decide), hend _ hok [.tokens] .tokensAndLayout⟩

end ScriptToC
