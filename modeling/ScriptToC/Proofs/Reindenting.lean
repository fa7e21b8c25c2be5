/-
  ScriptToC.Proofs.Reindenting — how deep a line is does not matter, only which of two lines is deeper
  (`only_the_order_of_depths_matters`).

  A layout is asked for nothing else, so two layouts with the same order go in lockstep. On the side of the
  text: leading blanks stand in front of the first lexeme of a line, so lines that are indented anew have the
  same tokens (`Tokenizes.reindent`), and their depths are the new ones (`Lexed.ofString_reindent`).
-/

import ScriptToC.Compile
import ScriptToC.Proofs.LineNumbers
import ScriptToC.Proofs.Lockstep

namespace ScriptToC

open Cursor

/-! ## Two layouts -/

/-- On the first lines of two layouts, the same one of two lines is deeper. -/
def Layout.OrderedAlike (lines : Nat) (l m : Layout) : Prop :=
  ∀ i ≤ lines, ∀ j ≤ lines, (l.depth i < l.depth j ↔ m.depth i < m.depth j)

variable {ts : List Token} {l m : Layout}

theorem Layout.OrderedAlike.sameOrder (h : l.OrderedAlike (ts.count .newline) m) :
    SameOrder ts (some l) (some m) := by
  intro i j _ _
  have horder := h _ (before_line_le ts i) _ (before_line_le ts j)
  rw [Option.map_some, Option.map_some]
  exact congrArg some (decide_eq_decide.2 horder)

theorem Layout.orderedAlike_of_map {lines : Nat} (width : Nat → Nat)
    (hwidth : ∀ i ≤ lines, ∀ j ≤ lines, l.depth i < l.depth j → width (l.depth i) < width (l.depth j))
    (hdepth : ∀ i ≤ lines, m.depth i = width (l.depth i)) : l.OrderedAlike lines m := by
  intro i hi j hj
  rw [hdepth i hi, hdepth j hj]
  constructor
  · exact hwidth i hi j hj
  · intro hlt
    rcases Nat.lt_trichotomy (l.depth i) (l.depth j) with hless | heq | hmore
    · exact hless
    · rw [heq] at hlt
      exact absurd hlt (Nat.lt_irrefl _)
    · have := hwidth j hj i hi hmore
      omega

/-! ## Lines that are indented anew -/

/-- A line with as many spaces in front as `width` makes of its leading blanks. -/
def reindentLine (width : Nat → Nat) (line : List Char) : List Char :=
  List.replicate (width (leadingBlanks line)) ' ' ++ line.dropWhile isBlank

def reindentLines (width : Nat → Nat) (text : List Char) : List Char :=
  ['\n'].intercalate ((text.splitOn '\n').map (reindentLine width))

def reindent (width : Nat → Nat) (script : String) : String := String.ofList (reindentLines width script.toList)

variable {width : Nat → Nat}

theorem isBlank_spaces (n : Nat) : ∀ c ∈ List.replicate n ' ', isBlank c = true := by
  intro c hc
  rw [List.eq_of_mem_replicate hc]
  rfl

theorem leadingBlanks_reindentLine (width : Nat → Nat) (line : List Char) :
    leadingBlanks (reindentLine width line) = width (leadingBlanks line) := by
  rw [reindentLine, leadingBlanks, (takeWhile_run (isBlank_spaces _) fun c hc => head?_dropWhile hc).1,
    List.length_replicate]

theorem reindentLine_no_break {line : List Char} (h : '\n' ∉ line) : '\n' ∉ reindentLine width line := by
  intro hmem
  rcases List.mem_append.1 hmem with hspace | hrest
  · exact not_break_of_isBlank (isBlank_spaces _) hspace
  · exact h ((List.dropWhile_sublist isBlank).subset hrest)

/-- A text is one line, or a line with a text below it. -/
theorem exists_line (text : List Char) :
    '\n' ∉ text ∨ ∃ line rest, '\n' ∉ line ∧ text = line ++ '\n' :: rest := by
  by_cases h : '\n' ∈ text
  · obtain ⟨line, rest, rfl, hline⟩ := List.eq_append_cons_of_mem h
    exact .inr ⟨line, rest, hline, rfl⟩
  · exact .inl h

theorem reindentLines_line {line : List Char} (h : '\n' ∉ line) :
    reindentLines width line = reindentLine width line := by
  rw [reindentLines, List.splitOn_eq_singleton h, List.map_singleton, List.intercalate_singleton]

theorem reindentLines_break {line : List Char} (h : '\n' ∉ line) (rest : List Char) :
    reindentLines width (line ++ '\n' :: rest) = reindentLine width line ++ '\n' :: reindentLines width rest := by
  obtain ⟨next, lines, hlines⟩ := List.exists_cons_of_ne_nil (List.splitOn_ne_nil '\n' rest)
  rw [reindentLines, reindentLines, List.splitOn_append_cons_self_of_not_mem h, hlines, List.map_cons, List.map_cons,
    List.intercalate_cons_cons, List.append_assoc, List.singleton_append]

theorem splitOn_reindentLines (width : Nat → Nat) (text : List Char) :
    (reindentLines width text).splitOn '\n' = (text.splitOn '\n').map (reindentLine width) := by
  rcases exists_line text with hline | ⟨line, rest, hline, rfl⟩
  · rw [reindentLines_line hline, List.splitOn_eq_singleton (reindentLine_no_break hline),
      List.splitOn_eq_singleton hline, List.map_singleton]
  · rw [reindentLines_break hline, List.splitOn_append_cons_self_of_not_mem (reindentLine_no_break hline),
      splitOn_reindentLines width rest, List.splitOn_append_cons_self_of_not_mem hline, List.map_cons]
termination_by text.length
decreasing_by
  simp_all only [List.length_append, List.length_cons]
  omega

theorem Tokenizes.dropWhile {text : List Char} {us : List Token} (h : Tokenizes text us) :
    Tokenizes (text.dropWhile isBlank) us := by
  induction h with
  | nil => exact .nil
  | blank hb _ ih =>
    rw [List.dropWhile_cons_of_pos hb]
    exact ih
  | lexeme hspelt hfuses hrest _ =>
    obtain ⟨c, v, rfl, -⟩ := hspelt.munch hfuses
    have hnot : ¬isBlank c = true := by simp [hspelt.not_blank c rfl]
    rw [List.cons_append, List.dropWhile_cons_of_neg hnot]
    exact .lexeme hspelt hfuses hrest

/-- The tokens of a text do not depend on the leading blanks of its lines. -/
theorem Tokenizes.reindent {text : List Char} {us : List Token} (h : Tokenizes text us) (width : Nat → Nat) :
    Tokenizes (reindentLines width text) us := by
  have hline : ∀ {line us}, Tokenizes line us → Tokenizes (reindentLine width line) us :=
    fun hus => hus.dropWhile.blanks (isBlank_spaces _)
  rcases exists_line text with hone | ⟨line, rest, hno, rfl⟩
  · rw [reindentLines_line hone]
    exact hline h
  · obtain ⟨us, vs, rfl, hus, hvs⟩ := h.split hno
    rw [reindentLines_break hno]
    exact (hline hus).join (hvs.reindent width)
termination_by text.length
decreasing_by
  simp_all only [List.length_append, List.length_cons]
  omega

theorem Lexed.ofString_reindent {script : String} {lexed : Lexed} (h : Lexed.ofString script = .ok lexed)
    (width : Nat → Nat) :
    Lexed.ofString (reindent width script) = .ok ⟨lexed.tokens, ⟨lexed.layout.depths.map width⟩⟩ := by
  obtain ⟨layout, hscanned⟩ := ((Lexed.ofString_eq_ok_iff.1 h).tokenizes.reindent width).scanned true
  have h' : Lexed.ofString (reindent width script) = .ok ⟨lexed.tokens, layout⟩ := by
    refine Lexed.ofString_eq_ok_iff.2 ?_
    rwa [ScriptToC.reindent, String.toList_ofList]
  have hdepths : layout.depths = lexed.layout.depths.map width := by
    rw [Lexed.depths_eq h, show layout.depths = _ from Lexed.depths_eq h', ScriptToC.reindent, String.toList_ofList,
      splitOn_reindentLines, List.map_map, List.map_map]
    exact List.map_congr_left fun line _ => leadingBlanks_reindentLine width line
  rw [h', ← hdepths]

/-- A script is compiled alike if its lines are indented anew and none changes places with another: the code
    is the same, or the error, and so is what is told. -/
theorem compile_reindent {script : String} {lexed : Lexed} (h : Lexed.ofString script = .ok lexed)
    (hwidth : ∀ a ∈ lexed.layout.depths, ∀ b ∈ lexed.layout.depths, a < b → width a < width b) :
    compile (reindent width script) = compile script := by
  have hget : ∀ i ≤ lexed.tokens.count .newline, ∃ d ∈ lexed.layout.depths,
      lexed.layout.depths[i]? = some d := fun i hi => by
    have hlt : i < lexed.layout.depths.length := by
      rw [Lexed.complete_of_ofString h]
      omega
    exact ⟨_, List.getElem_mem hlt, List.getElem?_eq_getElem hlt⟩
  have halike : lexed.layout.OrderedAlike (lexed.tokens.count .newline) ⟨lexed.layout.depths.map width⟩ := by
    refine Layout.orderedAlike_of_map width (fun i hi j hj => ?_) (fun i hi => ?_)
    · obtain ⟨a, ha, hia⟩ := hget i hi
      obtain ⟨b, hb, hjb⟩ := hget j hj
      rw [Layout.depth, Layout.depth, hia, hjb]
      exact hwidth a ha b hb
    · obtain ⟨a, -, hia⟩ := hget i hi
      rw [Layout.depth, Layout.depth, List.getElem?_map, hia]
      rfl
  have hprogram := Program.ofTokens_eq_of_sameOrder halike.sameOrder
  unfold compile
  rw [h, Lexed.ofString_reindent h]
  dsimp only
  rw [← hprogram, List.length_map]

/-! ## Only the order matters -/

/-- With two layouts the same is read of some tokens, be it a program or an error, if the same one of two
    lines is deeper. So all lines can be a constant deeper, the unit of indentation can be another one, and
    the lines of a script can be indented anew. -/
theorem only_the_order_of_depths_matters :
    (∀ (ts : List Token) (l m : Layout), l.OrderedAlike (ts.count .newline) m →
      Program.ofTokens (some l) ts = Program.ofTokens (some m) ts) ∧
    (∀ (ts : List Token) (l m : Layout) (k : Nat), (∀ i ≤ ts.count .newline, m.depth i = l.depth i + k) →
      Program.ofTokens (some l) ts = Program.ofTokens (some m) ts) ∧
    (∀ (ts : List Token) (l m : Layout) (level : Nat → Nat) (unit unit' : Nat), 0 < unit → 0 < unit' →
      (∀ i ≤ ts.count .newline, l.depth i = level i * unit ∧ m.depth i = level i * unit') →
      Program.ofTokens (some l) ts = Program.ofTokens (some m) ts) ∧
    ∀ (script : String) (lexed : Lexed) (width : Nat → Nat), Lexed.ofString script = .ok lexed →
      (∀ a ∈ lexed.layout.depths, ∀ b ∈ lexed.layout.depths, a < b → width a < width b) →
      compile (reindent width script) = compile script := by
  have hsame : ∀ {ts : List Token} {l m : Layout}, l.OrderedAlike (ts.count .newline) m →
      Program.ofTokens (some l) ts = Program.ofTokens (some m) ts :=
    fun h => Program.ofTokens_eq_of_sameOrder h.sameOrder
  refine ⟨fun ts l m h => hsame h, fun ts l m k h => hsame ?_, fun ts l m level unit unit' hunit hunit' h => hsame ?_,
    fun script lexed width h hwidth => compile_reindent h hwidth⟩
  · exact Layout.orderedAlike_of_map (· + k) (fun i _ j _ hlt => Nat.add_lt_add_right hlt k) h
  · intro i hi j hj
    obtain ⟨hl, hm⟩ := h i hi
    obtain ⟨hl', hm'⟩ := h j hj
    rw [hl, hm, hl', hm', Nat.mul_lt_mul_right hunit, Nat.mul_lt_mul_right hunit']

/-- A function whose body is on a line of its own, and a line below the body that is as deep as its `def`. -/
theorem a_function_is_indented_anew :
    let ts : List Token :=
      [.word .defWord, .name "f", .mark .openParen, .mark .closeParen, .mark .colon, .newline, .number 1, .newline,
        .number 2]
    let script := "def f():\n  1\n2"
    Layout.OrderedAlike 2 ⟨[0, 2]⟩ ⟨[1, 7, 1]⟩ ∧
      Program.ofTokens (some ⟨[0, 2]⟩) ts = Program.ofTokens (some ⟨[1, 7, 1]⟩) ts ∧
      Program.ofTokens (some ⟨[0, 2]⟩) ts = Program.ofTokens (some ⟨[3, 5, 3]⟩) ts ∧
      Program.ofTokens (some ⟨[0, 2]⟩) ts = Program.ofTokens (some ⟨[0, 6]⟩) ts ∧
      reindent (· * 3 + 1) script = " def f():\n       1\n 2" ∧
      compile (reindent (· * 3 + 1) script) = compile script := by
  intro ts script
  obtain ⟨horder, hconstant, hunit, hscript⟩ := only_the_order_of_depths_matters
  have halike : Layout.OrderedAlike 2 ⟨[0, 2]⟩ ⟨[1, 7, 1]⟩ := by
    unfold Layout.OrderedAlike
    decide
  have hlex : Lexed.ofString script = .ok ⟨ts, ⟨[0, 2, 0]⟩⟩ := Except.eq_ok_of_toOption (by decide +kernel)
  exact ⟨halike, horder ts _ _ halike, hconstant ts _ _ 3 (by decide), hunit ts _ _ (· % 2) 2 6 (by decide) (by decide)
    (by decide), by decide +kernel, hscript script _ _ hlex (by decide)⟩

end ScriptToC
