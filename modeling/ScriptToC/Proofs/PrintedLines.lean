/-
  ScriptToC.Proofs.PrintedLines — what a script comes to is one line without control characters, whatever
  characters the script has.

  Code is written with names, numbers and signs, and no control character is among them
  (`foreign_isControl`). A message shows a bad lexeme escaped, and a wrong token as it is: the names that a
  text is cut into are plain. Main statement: `prints_one_clean_line`.
-/

import ScriptToC.Proofs.Failing
import ScriptToC.Proofs.Readback
import ScriptToC.Proofs.Reports

namespace ScriptToC

/-- The control characters of Unicode (category Cc). Line breaks, tabs and escapes are among them. -/
def isControl (c : Char) : Bool := c.toNat < 0x20 || (0x7f ≤ c.toNat && c.toNat < 0xa0)

/-- A text without control characters. -/
def Clean (text : String) : Prop := text.toList.any isControl = false

instance (text : String) : Decidable (Clean text) := inferInstanceAs (Decidable (_ = false))

theorem Clean.append {a b : String} (ha : Clean a) (hb : Clean b) : Clean (a ++ b) := by
  rw [Clean, String.toList_append, List.any_append, Bool.or_eq_false_iff]
  exact ⟨ha, hb⟩

/-! ## Names and numbers -/

theorem toNat_of_isControl {c : Char} (h : isControl c = true) : c.toNat < 0xa0 := by
  simp only [isControl, Bool.or_eq_true, Bool.and_eq_true, decide_eq_true_eq] at h
  omega

theorem not_isControl_of_isNameChar {c : Char} (h : isNameChar c = true) : isControl c = false := by
  have hnone : ∀ n < 0xa0, isControl (Char.ofNat n) = true → isNameChar (Char.ofNat n) = false := by
    decide +kernel
  by_cases hc : isControl c = true
  · have hname := hnone c.toNat (toNat_of_isControl hc)
    rw [Char.ofNat_toNat] at hname
    rw [hname hc] at h
    cases h
  · exact Bool.not_eq_true _ ▸ hc

theorem foreign_isControl : Foreign isControl where
  name _ hc := not_isControl_of_isNameChar hc
  sign := by simp [signs, isControl]

theorem IsName.clean {x : String} (h : IsName x) : Clean x := h.any_foreign foreign_isControl

theorem any_isControl_of_isNameChar {cs : List Char} (h : ∀ c ∈ cs, isNameChar c = true) :
    cs.any isControl = false := by
  simpa using fun c hc => not_isControl_of_isNameChar (h c hc)

theorem clean_repr (n : Nat) : Clean (Nat.repr n) := by
  rw [Clean, Nat.toList_repr]
  refine any_isControl_of_isNameChar (fun c hc => isNameChar_of_isDigit ?_)
  exact Nat.isDigit_of_mem_toDigits (by decide) (by decide) hc

/-! ## Code -/

theorem Stmt.Writes.any_isControl {s : Stmt} {text : List Char} (h : Stmt.Writes s text) :
    text.any isControl = false := by
  induction h with
  | value hlead he =>
    rw [List.any_append, Lead.any_foreign foreign_isControl hlead he.names]
    rfl
  | @function name params s text hname hparams _ ih =>
    have hclose : [' ', '\x7d', ';'].any isControl = false := rfl
    have hopen : isControl '\x7b' = false ∧ isControl ' ' = false := ⟨rfl, rfl⟩
    rw [List.any_append, headText_any_foreign foreign_isControl hname hparams, List.any_cons, List.any_cons,
      List.any_append, ih, hclose, hopen.1, hopen.2]
    rfl

theorem Program.Writes.any_isControl {p : Program} {text : List Char} (h : Program.Writes p text) :
    text.any isControl = false := by
  induction h with
  | one hs => exact hs.any_isControl
  | more hs _ ih =>
    rw [List.any_append, List.any_cons, hs.any_isControl, ih]
    rfl

theorem clean_of_compile {script text : String} (h : (compile script).result = .ok text) : Clean text := by
  obtain ⟨p, hp, rfl⟩ := compile_eq_ok_iff_readsAs.1 h
  exact hp.writes.any_isControl

/-! ## Messages about lexemes -/

namespace Text

/-- Every control character is given by its code point, if it has no letter. -/
theorem unprintable_of_isControl {c : Char} (h : isControl c = true) : unprintable.contains c = true := by
  simp only [isControl, Bool.or_eq_true, Bool.and_eq_true, decide_eq_true_eq] at h
  rw [CharClass.contains, List.any_eq_true]
  rcases h with h | ⟨hlow, hhigh⟩
  · exact ⟨(0x0, 0x1f), by decide, by simp; omega⟩
  · exact ⟨(0x7f, 0xa0), by decide, by simp; omega⟩

theorem isNameChar_of_mem_toDigits {n : Nat} {c : Char} (h : c ∈ Nat.toDigits 16 n) : isNameChar c = true := by
  induction n using Nat.strongRecOn with
  | ind n ih =>
    have hdigit : ∀ d < 16, isNameChar (Nat.digitChar d) = true := by decide
    rw [Nat.toDigits_eq_if (by decide)] at h
    split at h
    · rename_i hlt
      rw [List.mem_singleton.1 h]
      exact hdigit n hlt
    · rcases List.mem_append.1 h with h | h
      · exact ih (n / 16) (by omega) h
      · rw [List.mem_singleton.1 h]
        exact hdigit _ (by omega)

theorem codePoint_any_isControl (c : Char) : (codePoint c).any isControl = false := by
  have hdigits : (Nat.toDigits 16 c.toNat).any isControl = false :=
    any_isControl_of_isNameChar fun _ hd => isNameChar_of_mem_toDigits hd
  rw [codePoint, List.any_append, List.any_append, hdigits]
  rfl

theorem shortEscape_not_isControl {c letter : Char} (h : shortEscape? c = some letter) : isControl letter = false := by
  unfold shortEscape? at h
  split at h <;> cases h <;> rfl

theorem escapeChar_any_isControl {hidden : Char → Bool} (hhidden : ∀ c, isControl c = true → hidden c = true)
    (c : Char) : (escapeChar hidden c).any isControl = false := by
  unfold escapeChar
  split
  · rename_i letter hletter
    rw [List.any_cons, List.any_cons, shortEscape_not_isControl hletter]
    rfl
  · by_cases hc : hidden c = true
    · rw [if_pos hc]
      exact codePoint_any_isControl c
    · have hplain : isControl c = false := Bool.not_eq_true _ ▸ mt (hhidden c) hc
      rw [if_neg hc, List.any_cons, hplain]
      rfl

theorem escape_any_isControl (cs : List Char) : (escape cs).any isControl = false := by
  rcases cs with _ | ⟨c, cs⟩
  · rfl
  · have hfirst : (escapeChar (fun d => extending.contains d || unprintable.contains d) c).any isControl = false :=
      escapeChar_any_isControl (fun d hd => by rw [unprintable_of_isControl hd, Bool.or_true]) c
    have hrest : (cs.flatMap (escapeChar unprintable.contains)).any isControl = false := by
      rw [List.any_flatMap, List.any_eq_false]
      intro d _
      rw [escapeChar_any_isControl (fun _ => unprintable_of_isControl) d]
      exact Bool.false_ne_true
    rw [escape, List.any_append, hfirst, hrest]
    rfl

end Text

theorem BadLexeme.clean_message (e : BadLexeme) : Clean e.message := by
  have hspelling : Clean (String.ofList (Text.escape e.spelling.toList)) := by
    rw [Clean, String.toList_ofList]
    exact Text.escape_any_isControl _
  have hfront : Clean ("Unrecognized token '" ++ String.ofList (Text.escape e.spelling.toList) ++ "' at line ") :=
    (Clean.append (by decide) hspelling).append (by decide)
  exact ((hfront.append (clean_repr _)).append (by decide)).append (clean_repr _)

/-! ## Messages about tokens -/

theorem Token.clean_describe {t : Token} (h : ∀ x, t = .name x → IsName x) : Clean t.describe := by
  cases t with
  | number n =>
    exact Clean.append (by decide) (clean_repr n.toNat)
  | name x =>
    exact (Clean.append (by decide) (h x rfl).clean).append (by decide)
  | arith op => cases op <;> decide
  | compare op => cases op <;> decide
  | mark m => cases m <;> decide
  | word k => cases k <;> decide
  | newline => decide

theorem Unexpected.clean_message {e : Unexpected} (h : ∀ t ∈ e.found, ∀ x, t = .name x → IsName x) :
    Clean e.message := by
  have hexpected : Clean e.expected.text := by cases e.expected <;> decide +kernel
  have hfound : Clean e.foundText := by
    unfold Unexpected.foundText
    split
    · decide
    · rename_i t ht
      have hdescribe := Token.clean_describe (h t ht)
      split
      · exact Clean.append (by decide) hdescribe
      · exact hdescribe
  have hfront : Clean ("Syntax error at token " ++ Nat.repr e.position) := Clean.append (by decide) (clean_repr _)
  exact (((hfront.append (by decide)).append hexpected).append (by decide)).append hfound

theorem Program.found_mem {layout : Option Layout} {ts : List Token} {e : Unexpected}
    (h : Program.ofTokens layout ts = .error e) : ∀ t ∈ e.found, t ∈ ts := by
  obtain ⟨f, hf, rfl⟩ := Program.ofTokens_eq_error.1 h
  obtain ⟨us, d, hp, hfound, -⟩ := (Program.stopped_of_read hf).ahead
  have hts : ts = us ++ d.rest := hp.rest
  intro t ht
  rw [hfound] at ht
  rw [hts]
  exact List.mem_append_right us (List.mem_of_mem_head? ht)

theorem clean_of_compile_error {script : String} {e : Rejection} (h : (compile script).result = .error e) :
    Clean e.message := by
  unfold compile at h
  cases hlex : Lexed.ofString script with
  | error bad =>
    simp only [hlex] at h
    cases h
    exact bad.clean_message
  | ok lexed =>
    cases hp : Program.ofTokens (some lexed.layout) lexed.tokens with
    | error wrong =>
      simp only [hlex, hp] at h
      cases h
      refine Unexpected.clean_message (fun t ht x hx => ?_)
      exact (Lexed.ofString_eq_ok_iff.1 hlex).isName x (hx ▸ Program.found_mem hp t ht)
    | ok p =>
      simp only [hlex, hp] at h
      cases h

/-! ## What is printed -/

/-- No event is shown above the level of the stages. -/
theorem filter_shows_eq_nil {level : LogLevel} (h : level.rank < LogLevel.debug.rank) (events : List Event) :
    events.filter level.shows = [] := by
  refine List.filter_eq_nil_iff.2 (fun e _ hshows => ?_)
  rcases LogLevel.shows_iff.1 hshows with rfl | ⟨rfl, -⟩
  · exact absurd h (by decide)
  · exact absurd h (Nat.lt_irrefl _)

/-- Code and messages have no control character, for every script. So a run with a script that it can read
    prints one line besides the log: the code, or what is wrong. And the log is empty, unless the run was
    told to log what each stage does. -/
theorem prints_one_clean_line (script : String) :
    (∀ text, (compile script).result = .ok text → Clean text) ∧
      (∀ e, (compile script).result = .error e → Clean e.message) ∧
      ∀ i : Command.Invocation, i.Reads script →
        (∃ line, Clean line ∧
          (i.report.output = line ++ "\n" ∧ i.report.errors = "" ∨
            i.report.output = "" ∧ i.report.errors = line ++ "\n")) ∧
        ∀ level, Command.EffectiveLevel i.args i.levelText level → level.rank < LogLevel.debug.rank →
          i.report.log = [] := by
  refine ⟨fun _ => clean_of_compile, fun _ => clean_of_compile_error, fun i hi => ?_⟩
  obtain ⟨level, hlevel, hreport⟩ := hi.report
  rw [hreport]
  refine ⟨?_, fun l hl hcoarse => ?_⟩
  · cases hresult : (compile script).result with
    | ok text =>
      rw [Command.compileReport_of_ok hresult]
      exact ⟨text, clean_of_compile hresult, .inl ⟨rfl, rfl⟩⟩
    | error e =>
      rw [Command.compileReport_of_error hresult]
      exact ⟨"Error: " ++ e.message, Clean.append (by decide) (clean_of_compile_error hresult), .inr ⟨rfl, rfl⟩⟩
  · rw [Command.compileReport_log, ← (hlevel l).1 hl, filter_shows_eq_nil hcoarse]

end ScriptToC
