/-
  ScriptToC.Proofs.ViablePrefix — the reported token is the first one that no program has there.

  The tokens in front of it always begin a program (`Program.Stuck.viable`): wherever reading is stuck,
  what is open can be closed again. The tokens up to it begin none, since reading is stuck in front of it
  whatever follows (`Program.Stuck.fails`). Main statement: `first_wrong_token`.

  In front of a program line breaks are passed over, and a semicolon is the first wrong token, though
  behind a statement both separate: `leading_separators`.
-/

import ScriptToC.Proofs.StuckPrograms
import ScriptToC.Proofs.Unparsing

namespace ScriptToC

/-! ## What is open can be closed -/

/-- A number completes whatever wants an expression. -/
theorem Expr.Derives.zero (tier : Tier) : Expr.Derives (.whole tier) [.number 0] (.number 0) :=
  ((Expr.OfTier.number 0).mono (Nat.zero_le tier.rank)).derives

theorem Expr.Stuck.viable {p : Expr.Phrase} {ts : List Token} {next : Option Token} {x : Expectation}
    (h : Expr.Stuck p ts next x) : ∃ us e, Expr.Derives p (ts ++ us) e := by
  induction h with
  | atom _ => exact ⟨[.number 0], .number 0, .number 0⟩
  | inside _ ih =>
    obtain ⟨us, e, he⟩ := ih
    exact ⟨us ++ [.mark .closeParen], .grouped e, by simpa using Expr.Derives.grouped he⟩
  | unclosed he _ => exact ⟨[.mark .closeParen], _, .grouped he.derives⟩
  | first _ _ ih =>
    obtain ⟨us, e, he⟩ := ih
    exact ⟨us, e, he.widen⟩
  | chain htier hl _ ih =>
    obtain ⟨us, e, he⟩ := ih
    exact ⟨us, e, by simpa using Expr.Derives.chain htier hl.derives he⟩
  | operand htier _ ih =>
    obtain ⟨us, e, he⟩ := ih
    exact ⟨us, _, by simpa using Expr.Derives.operation htier he (.done _ _)⟩
  | operation htier hr _ ih =>
    obtain ⟨us, e, he⟩ := ih
    exact ⟨us, e, by simpa using Expr.Derives.operation htier hr.derives he⟩
  | compare hl _ ih =>
    obtain ⟨us, e, he⟩ := ih
    exact ⟨us, _, by simpa using Expr.Derives.compare hl.derives he⟩
  | condition ht _ ih =>
    obtain ⟨us, e, he⟩ := ih
    exact ⟨us ++ [.word .elseWord, .number 0], _,
      by simpa using Expr.Derives.conditional ht.derives he (.zero .comparison)⟩
  | noElse ht hc _ =>
    exact ⟨[.word .elseWord, .number 0], _,
      by simpa using Expr.Derives.conditional ht.derives hc.derives (.zero .comparison)⟩
  | otherwise ht hc _ ih =>
    obtain ⟨us, e, he⟩ := ih
    exact ⟨us, _, by simpa using Expr.Derives.conditional ht.derives hc.derives he⟩

theorem Stmt.Stuck.viable {ts : List Token} {next : Option Token} {x : Expectation} (h : Stmt.Stuck ts next x) :
    ∃ us s, Stmt.Derives (ts ++ us) s := by
  induction h with
  | expr he _ =>
    obtain ⟨us, e, he⟩ := he.viable
    exact ⟨us, _, .expr he⟩
  | ret he =>
    obtain ⟨us, e, he⟩ := he.viable
    exact ⟨us, _, .ret he⟩
  | assign he =>
    obtain ⟨us, e, he⟩ := he.viable
    exact ⟨us, _, .assign he⟩
  | @head ts _ _ hs =>
    obtain ⟨us, f, params, heq⟩ := hs.viable
    have hbody : Stmt.Derives [.number 0] (.expr (.number 0)) := .expr (.zero .conditional)
    refine ⟨us ++ [.number 0], .function f params [.expr (.number 0)], ?_⟩
    have hall : ts ++ (us ++ [.number 0]) = signatureTokens f params ++ ([] ++ [.number 0]) := by
      rw [← List.append_assoc, heq]
      rfl
    rw [List.cons_append, hall]
    exact .function (List.forall_mem_nil _) hbody
  | body hbreaks _ _ ih =>
    obtain ⟨us, s, hs⟩ := ih
    exact ⟨us, _, by simpa using Stmt.Derives.function hbreaks hs⟩

theorem Program.StuckBehind.viable {ts : List Token} {next : Option Token} {x : Expectation}
    (h : Program.StuckBehind ts next x) : ∃ us ss, Program.Continues (ts ++ us) ss := by
  induction h with
  | separator _ => exact ⟨[], [], .done (List.forall_mem_nil _)⟩
  | statement hne hseps _ _ hs =>
    obtain ⟨us, s, hs⟩ := hs.viable
    exact ⟨us, [s], by simpa using Program.Continues.next hne hseps hs (.done (List.forall_mem_nil _))⟩
  | further hne hseps hs _ ih =>
    obtain ⟨us, ss, hrest⟩ := ih
    exact ⟨us, _, by simpa using Program.Continues.next hne hseps hs.derives hrest⟩

theorem Program.Stuck.viable {ts : List Token} {next : Option Token} {x : Expectation}
    (h : Program.Stuck ts next x) : ∃ us p, Program.Derives (ts ++ us) p := by
  cases h with
  | first hbreaks _ hs =>
    obtain ⟨us, s, hs⟩ := hs.viable
    exact ⟨us, [s], by simpa using Program.Derives.start hbreaks hs (.done (List.forall_mem_nil _))⟩
  | further hbreaks hs hrest =>
    obtain ⟨us, ss, hrest⟩ := hrest.viable
    exact ⟨us, _, by simpa using Program.Derives.start hbreaks hs.derives hrest⟩

/-! ## The reported token -/

/-- An error is in front of the first token that makes the tokens no beginning of a program: those in front
    of it begin one, and whatever starts with those up to it has the same error. At the end of the tokens
    the end is what was found. -/
theorem first_wrong_token {ts : List Token} {e : Unexpected} (h : Program.ofTokens none ts = .error e) :
    e.position ≤ ts.length ∧ e.found = ts[e.position]? ∧
      (∃ us p, Program.ofTokens none (ts.take e.position ++ us) = .ok p) ∧
      (e.position < ts.length →
        ∀ us, ts.take (e.position + 1) <+: us → Program.ofTokens none us = .error e) ∧
      (e.position = ts.length → e.foundText = "end of input") := by
  obtain ⟨taken, rest, x, rfl, hstuck, rfl⟩ := Program.ofTokens_error_iff_stuck.1 h
  have hfound : rest.head? = (taken ++ rest)[taken.length]? := by
    rw [List.getElem?_append_right (Nat.le_refl _), Nat.sub_self, List.head?_eq_getElem?]
  refine ⟨by simp, hfound, ?_, fun hlt us hus => ?_, fun hend => ?_⟩
  · obtain ⟨us, p, hp⟩ := hstuck.viable
    exact ⟨us, p, by simpa using hp.ofTokens⟩
  · obtain ⟨t, rest, rfl⟩ := List.exists_cons_of_ne_nil (l := rest) (by rintro rfl; simp at hlt)
    have hupTo : (taken ++ t :: rest).take (taken.length + 1) = taken ++ [t] := by
      rw [List.append_cons, List.take_left' (by simp)]
    obtain ⟨vs, rfl⟩ := hupTo ▸ hus
    exact Program.ofTokens_error_iff_stuck.2 ⟨taken, t :: vs, x, by simp, hstuck, rfl⟩
  · have hnil : rest = [] := by simpa using hend
    subst hnil
    rfl

theorem first_wrong_token_in_parentheses :
    let tokens : List Token :=
      [.name "x", .mark .assign, .mark .openParen, .number 1, .arith .add, .mark .semicolon, .number 2]
    let e : Unexpected := ⟨.expression, some (.mark .semicolon), 5⟩
    Program.ofTokens none tokens = .error e ∧
      ∀ us, tokens.take 6 <+: us → Program.ofTokens none us = .error e := by
  intro tokens e
  have h : Program.ofTokens none tokens = .error e := by decide +kernel
  exact ⟨h, (first_wrong_token h).2.2.2.1 (by decide)⟩

/-! ## Separators in front of a program -/

theorem Expr.Stuck.nil (tier : Tier) {next : Option Token} (hnext : ∀ t ∈ next, t.beginsExpr = false) :
    Expr.Stuck (.whole tier) [] next .expression := by
  have hatom : Expr.Stuck (.whole .atom) [] next .expression := .atom hnext
  have hle : Tier.atom.rank ≤ tier.rank := Nat.zero_le _
  refine of_rank_le (P := fun tier => Expr.Stuck (.whole tier) [] next .expression) Tier.eq_of_rank_eq
    Tier.operand_rank (fun tier h => ?_) hle hatom
  by_cases htier : tier = .atom
  · exact htier ▸ hatom
  · exact .first htier h

theorem startsExpr_semicolon : StartsExpr [] (some (.mark .semicolon)) := by
  intro c d hp hd
  rw [Cursor.passes_nil.1 hp] at hd
  exact ⟨Cursor.target?_eq_none (by simp [hd]), by simp [hd], by simp [hd]⟩

theorem Stmt.stuck_semicolon : Stmt.Stuck [] (some (.mark .semicolon)) .expression :=
  .expr (.nil .conditional (by simp [Token.beginsExpr])) startsExpr_semicolon

theorem Program.ofTokens_semicolon {breaks ts : List Token} (hbreaks : ∀ t ∈ breaks, t = .newline) :
    Program.ofTokens none (breaks ++ .mark .semicolon :: ts) =
      .error ⟨.expression, some (.mark .semicolon), breaks.length⟩ :=
  Program.ofTokens_error_iff_stuck.2
    ⟨breaks, .mark .semicolon :: ts, .expression, rfl,
      by simpa using Program.Stuck.first hbreaks (by simp) Stmt.stuck_semicolon, rfl⟩

theorem Program.Derives.breaks_append {breaks ts : List Token} {p : Program} (h : Program.Derives ts p)
    (hbreaks : ∀ t ∈ breaks, t = .newline) : Program.Derives (breaks ++ ts) p := by
  cases h with
  | start hbreaks' hs hrest =>
    rw [← List.append_assoc]
    exact .start (by simpa [or_imp, forall_and] using ⟨hbreaks, hbreaks'⟩) hs hrest

/-- Separators hold line breaks only, or some of these and then a semicolon. -/
theorem separators_cases {separators : List Token} (h : ∀ t ∈ separators, t.isSeparator = true) :
    (∀ t ∈ separators, t = .newline) ∨
      ∃ breaks rest, separators = breaks ++ .mark .semicolon :: rest ∧ ∀ t ∈ breaks, t = .newline := by
  induction separators with
  | nil => exact .inl (List.forall_mem_nil _)
  | cons t separators ih =>
    obtain ⟨ht, hrest⟩ := List.forall_mem_cons.1 h
    by_cases hnewline : t = .newline
    · rcases ih hrest with hbreaks | ⟨breaks, rest, rfl, hbreaks⟩
      · exact .inl (List.forall_mem_cons.2 ⟨hnewline, hbreaks⟩)
      · exact .inr ⟨t :: breaks, rest, rfl, List.forall_mem_cons.2 ⟨hnewline, hbreaks⟩⟩
    · have hsemicolon : t = .mark .semicolon := by simpa [Token.isSeparator, hnewline] using ht
      exact .inr ⟨[], separators, by rw [hsemicolon]; rfl, List.forall_mem_nil _⟩

/-- In front of a program separators change nothing if they are all line breaks. Otherwise the first
    semicolon is reported in the place of an expression, whatever stands behind it. -/
theorem leading_separators {ts separators : List Token} {p : Program} (h : Program.ofTokens none ts = .ok p)
    (hseps : ∀ t ∈ separators, t.isSeparator = true) :
    (Program.ofTokens none (separators ++ ts) = .ok p ↔ ∀ t ∈ separators, t = .newline) ∧
      ∀ breaks rest, separators = breaks ++ .mark .semicolon :: rest → (∀ t ∈ breaks, t = .newline) →
        Program.ofTokens none (separators ++ ts) =
          .error ⟨.expression, some (.mark .semicolon), breaks.length⟩ := by
  have hsemicolon : ∀ breaks rest, separators = breaks ++ .mark .semicolon :: rest →
      (∀ t ∈ breaks, t = .newline) →
      Program.ofTokens none (separators ++ ts) =
        .error ⟨.expression, some (.mark .semicolon), breaks.length⟩ := by
    intro breaks rest heq hbreaks
    rw [heq, List.append_assoc, List.cons_append]
    exact Program.ofTokens_semicolon hbreaks
  refine ⟨⟨fun hok => ?_, fun hbreaks => ?_⟩, hsemicolon⟩
  · rcases separators_cases hseps with hbreaks | ⟨breaks, rest, heq, hbreaks⟩
    · exact hbreaks
    · rw [hsemicolon breaks rest heq hbreaks] at hok
      cases hok
  · exact ((Program.derives_of_ofTokens h).breaks_append hbreaks).ofTokens

theorem leading_separators_of_a_number :
    let separators : List Token := [.newline, .mark .semicolon, .newline]
    (∀ t ∈ separators, t.isSeparator = true) ∧ Program.ofTokens none [.number 1] = .ok [.expr (.number 1)] ∧
      Program.ofTokens none (separators ++ [.number 1]) =
        .error ⟨.expression, some (.mark .semicolon), 1⟩ := by
  intro separators
  have hseps : ∀ t ∈ separators, t.isSeparator = true := by decide
  have h : Program.ofTokens none [.number 1] = .ok [.expr (.number 1)] := by decide +kernel
  exact ⟨hseps, h, (leading_separators h hseps).2 [.newline] [.newline] rfl (by simp)⟩

/-- A semicolon in front of a number, where the grammar with separators in front has a program. -/
theorem a_leading_semicolon_is_wrong :
    Program.ofTokens none [.number 1] = .ok [.expr (.number 1)] ∧
      (Token.mark .semicolon).isSeparator = true ∧
      Program.ofTokens none [.mark .semicolon, .number 1] =
        .error ⟨.expression, some (.mark .semicolon), 0⟩ := by
  decide +kernel

end ScriptToC
