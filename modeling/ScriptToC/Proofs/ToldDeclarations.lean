/-
  ScriptToC.Proofs.ToldDeclarations — the log tells what was done: how much each stage has read or written, and
  each declaration of the code, in order.

  Code is written statement by statement, and a declaration is told when it is written (`Writer`). The
  declarations can be read off the text alone: it is cut at semicolons and braces, and a piece declares a
  name where an equals sign follows `int` and the name (`declarationsIn`). Main statement:
  `log_tells_what_was_done`.
-/

import ScriptToC.Proofs.LineNumbers
import ScriptToC.Proofs.Readback

namespace ScriptToC

/-! ## Writing and telling -/

/-- Where code is being written: the names that are declared there, and all that was told before. -/
structure Writer where
  known : Declared
  told : List Event

namespace Writer

/-- Whether the name has to be declared. If so it is, and that is told. -/
def declare (w : Writer) (x : String) : Bool × Writer :=
  if w.known.has x then (false, w) else (true, ⟨w.known.add x, w.told ++ [.declaring x]⟩)

mutual

/-- A body has names of its own, and what is told goes on through it. -/
def write (w : Writer) : Stmt → String × Writer
  | .assign x e =>
    let (fresh, after) := w.declare x
    ((if fresh then "int " else "") ++ x ++ " = " ++ e.text ++ ";", after)
  | .ret e => ("return " ++ e.text ++ ";", w)
  | .function f params body =>
    let (texts, inside) := writeAll ⟨Declared.ofParameters params, w.told⟩ body
    ("int " ++ f ++ "(" ++ ", ".intercalate (params.map ("int " ++ ·)) ++ ") \x7b " ++ " ".intercalate texts ++
      " \x7d;", ⟨w.known, inside.told⟩)
  | .expr e => (e.text ++ ";", w)

def writeAll (w : Writer) : List Stmt → List String × Writer
  | [] => ([], w)
  | s :: ss =>
    let (text, after) := w.write s
    let (texts, last) := after.writeAll ss
    (text :: texts, last)

end

/-- Where the code has been written. -/
def behind (w : Writer) (known : Declared) (names : List String) : Writer :=
  ⟨known, w.told ++ names.map Event.declaring⟩

theorem behind_nil (w : Writer) : w.behind w.known [] = w := by
  rw [behind, List.map_nil, List.append_nil]

theorem declare_eq (w : Writer) (x : String) :
    w.declare x = (!w.known.has x, w.behind (w.known.add x) (if w.known.has x then [] else [x])) := by
  unfold declare
  cases hknown : w.known.has x with
  | true =>
    have hadd : w.known.add x = w.known := if_pos hknown
    rw [if_pos rfl, if_pos rfl, hadd, behind_nil]
    rfl
  | false => rfl

mutual

theorem write_eq (w : Writer) : (s : Stmt) →
    w.write s = ((CStmt.ofStmt w.known s).1.text,
      w.behind (CStmt.ofStmt w.known s).2 (CStmt.ofStmt w.known s).1.declarations)
  | .assign x e => by
    rw [write, declare_eq, CStmt.ofStmt]
    cases hknown : w.known.has x with
    | true => simp [CStmt.text, CStmt.declarations]
    | false => simp [CStmt.text, CStmt.declarations]
  | .ret e => by rw [write, CStmt.ofStmt, CStmt.text, CStmt.declarations, behind_nil]
  | .function f params body => by
    rw [write, writeAll_eq, CStmt.ofStmt, CStmt.text, CStmt.declarations]
    rfl
  | .expr e => by rw [write, CStmt.ofStmt, CStmt.text, CStmt.declarations, behind_nil]

theorem writeAll_eq (w : Writer) : (ss : List Stmt) →
    w.writeAll ss = (CStmt.texts (CStmt.ofStmts w.known ss).1,
      w.behind (CStmt.ofStmts w.known ss).2 (CStmt.allDeclarations (CStmt.ofStmts w.known ss).1))
  | [] => by rw [writeAll, CStmt.ofStmts, CStmt.texts, CStmt.allDeclarations, behind_nil]
  | s :: ss => by
    rw [writeAll, write_eq w s, CStmt.ofStmts, CStmt.texts, CStmt.allDeclarations]
    simp only [writeAll_eq _ ss]
    simp [behind]

end

end Writer

/-- Writes the code of a program, and tells how much that was. -/
def Program.write (p : Program) : String × List Event :=
  let (texts, last) := Writer.writeAll ⟨Declared.empty, []⟩ p
  let text := " ".intercalate texts
  (text, last.told ++ [.generated text.utf8ByteSize])

theorem Program.write_eq (p : Program) : p.write = ((Code.ofProgram p).text, (Code.ofProgram p).events) := by
  rw [Program.write, Writer.writeAll_eq]
  rfl

/-! ## Declarations of a text -/

/-- The name that a piece of a text declares: its words are `int`, the name, and an equals sign. -/
def declared? (piece : List Char) : Option String :=
  let (first, behindFirst) := Lead.cutWord piece
  let (second, behindSecond) := Lead.cutWord behindFirst
  if first = ['i', 'n', 't'] ∧ second.all isNameChar = true ∧ (Lead.cutWord behindSecond).1 = ['='] then
    some (String.ofList second)
  else none

/-- The names that a text of code declares, from left to right. -/
def declarationsIn (text : List Char) : List String :=
  (text.splitOnP isDelimiter).filterMap fun piece => declared? (piece.dropWhile (· = ' '))

theorem declarationsIn_nil : declarationsIn [] = [] := rfl

theorem declarationsIn_piece {piece : List Char} {d : Char} (h : piece.any isDelimiter = false)
    (hd : isDelimiter d = true) (rest : List Char) :
    declarationsIn (piece ++ d :: rest) =
      (declared? (piece.dropWhile (· = ' '))).toList ++ declarationsIn rest := by
  have hpiece : ∀ c ∈ piece, isDelimiter c = false := by simpa using h
  rw [declarationsIn, List.splitOnP_append_cons_of_forall_mem hpiece d hd, List.filterMap_cons]
  cases declared? (piece.dropWhile (· = ' ')) <;> rfl

/-- A space in front of a text is passed over. -/
theorem declarationsIn_space (text : List Char) : declarationsIn (' ' :: text) = declarationsIn text := by
  obtain ⟨piece, pieces, hpieces⟩ := List.exists_cons_of_ne_nil (List.splitOnP_ne_nil isDelimiter text)
  have hspace : isDelimiter ' ' = false := rfl
  rw [declarationsIn, declarationsIn, List.splitOnP_cons_eq_if_modifyHead, hspace, hpieces]
  rfl

theorem declared?_of_first {piece : List Char} (h : (Lead.cutWord piece).1 ≠ ['i', 'n', 't']) :
    declared? piece = none := by
  unfold declared?
  exact if_neg (fun hwords => h hwords.1)

theorem declared?_of_second {first behind : List Char} (hfirst : ' ' ∉ first)
    (h : (Lead.cutWord behind).1.all isNameChar = false) : declared? (first ++ ' ' :: behind) = none := by
  unfold declared?
  simp only [Lead.cutWord_space hfirst, h]
  exact if_neg (fun hwords => Bool.false_ne_true hwords.2.1)

theorem declared?_of_one_word {word : List Char} (h : ' ' ∉ word) : declared? word = none := by
  have hword := @Lead.cutWord_run word [] h (by simp)
  rw [List.append_nil] at hword
  have hnil : Lead.cutWord [] = ([], []) := rfl
  unfold declared?
  simp only [hword, List.tail_nil, hnil]
  exact if_neg (fun hwords => List.cons_ne_nil _ _ hwords.2.2.symm)

theorem operators_all_isNameChar : ∀ op ∈ operators, op.all isNameChar = false := by decide

namespace Lead

/-- What a lead declares. -/
def declared : Lead → List String
  | declare x => [x]
  | assign _ | ret | bare => []

theorem declared?_text {lead : Lead} {e : Expr} (hlead : lead.Named) (hn : ∀ x ∈ e.names, IsName x) :
    (declared? (lead.text ++ e.text.toList)).toList = lead.declared := by
  have hequals : ' ' ∉ ['='] := by decide
  cases lead with
  | declare x =>
    have hx : IsName x := hlead
    have hsplit : (declare x).text ++ e.text.toList =
        ['i', 'n', 't'] ++ ' ' :: (x.toList ++ ' ' :: (['='] ++ ' ' :: e.text.toList)) := by simp [text]
    have hint : ' ' ∉ ['i', 'n', 't'] := by decide
    have hname : x.toList.all isNameChar = true := List.all_eq_true.2 hx.isNameChar
    unfold declared?
    simp only [hsplit, cutWord_space hint, cutWord_space (hx.not_mem rfl), cutWord_space hequals, hname, and_self,
      if_true, String.ofList_toList]
    rfl
  | assign x =>
    have hx : IsName x := hlead
    have hsplit : (assign x).text ++ e.text.toList = x.toList ++ ' ' :: (['='] ++ ' ' :: e.text.toList) := by
      simp [text]
    have hsecond : (cutWord (['='] ++ ' ' :: e.text.toList)).1.all isNameChar = false := by
      rw [cutWord_space hequals]
      rfl
    rw [hsplit, declared?_of_second (hx.not_mem rfl) hsecond]
    rfl
  | ret =>
    have hsplit : ret.text ++ e.text.toList = ['r', 'e', 't', 'u', 'r', 'n'] ++ ' ' :: e.text.toList := by
      simp [text]
    have hfirst : (cutWord (ret.text ++ e.text.toList)).1 ≠ ['i', 'n', 't'] := by
      have hreturn : ' ' ∉ ['r', 'e', 't', 'u', 'r', 'n'] := by decide
      rw [hsplit, cutWord_space hreturn]
      simp
    rw [declared?_of_first hfirst]
    rfl
  | bare =>
    show (declared? e.text.toList).toList = []
    rcases e.operatorSecond hn with hone | ⟨w, op, r, hsplit, hw, hop⟩
    · rw [declared?_of_one_word hone]
      rfl
    · have hsecond : (cutWord (op ++ ' ' :: r)).1.all isNameChar = false := by
        rw [cutWord_space (operators_no_space op hop)]
        exact operators_all_isNameChar op hop
      rw [hsplit, declared?_of_second hw hsecond]
      rfl

theorem opens {lead : Lead} {e : Expr} (hlead : lead.Named) (hn : ∀ x ∈ e.names, IsName x) :
    ∃ c, (lead.text ++ e.text.toList).head? = some c ∧ opensOperand c = true := by
  cases lead with
  | declare x => exact ⟨'i', rfl, rfl⟩
  | assign x =>
    have hx : IsName x := hlead
    obtain ⟨c, hc, hopens⟩ := hx.opens
    exact ⟨c, by simp [text, hc], hopens⟩
  | ret => exact ⟨'r', rfl, rfl⟩
  | bare => exact Expr.opens hn

theorem declarationsIn_value {lead : Lead} {e : Expr} (hlead : lead.Named) (hn : ∀ x ∈ e.names, IsName x)
    (rest : List Char) :
    declarationsIn (lead.text ++ e.text.toList ++ ';' :: rest) = lead.declared ++ declarationsIn rest := by
  obtain ⟨c, hc, hopens⟩ := opens hlead hn
  have hspace : c ≠ ' ' := by
    rintro rfl
    cases hopens
  have htrimmed : (lead.text ++ e.text.toList).dropWhile (· = ' ') = lead.text ++ e.text.toList := by
    obtain ⟨tail, htail⟩ := List.head?_eq_some_iff.1 hc
    rw [htail, List.dropWhile_cons_of_neg (by simpa using hspace)]
  rw [declarationsIn_piece (any_foreign foreign_isDelimiter hlead hn) rfl, htrimmed, declared?_text hlead hn]

end Lead

/-- The head of a function declares nothing: behind its name stands a parenthesis. -/
theorem declarationsIn_headText {name : String} {params : List String} (hname : IsName name)
    (hparams : ∀ x ∈ params, IsName x) (rest : List Char) :
    declarationsIn (headText name params ++ '\x7b' :: rest) = declarationsIn rest := by
  obtain ⟨tail, htail⟩ : ∃ tail, headText name params = ['i', 'n', 't'] ++ ' ' :: (name.toList ++ '(' :: tail) :=
    ⟨_, rfl⟩
  have hint : ' ' ∉ ['i', 'n', 't'] := by decide
  have hsecond : (Lead.cutWord (name.toList ++ '(' :: tail)).1.all isNameChar = false := by
    have hrun : ∀ c ∈ name.toList, decide (c ≠ ' ') = true := by
      intro c hc
      rw [decide_eq_true_eq]
      rintro rfl
      exact hname.not_mem rfl hc
    rw [Lead.cutWord, List.takeWhile_append_of_pos hrun]
    exact List.all_eq_false.2 ⟨'(', by simp, by decide⟩
  have hnone : declared? (headText name params) = none := htail ▸ declared?_of_second hint hsecond
  have htrimmed : (headText name params).dropWhile (· = ' ') = headText name params := rfl
  rw [declarationsIn_piece (headText_any_foreign foreign_isDelimiter hname hparams) rfl, htrimmed, hnone]
  rfl

theorem declarationsIn_close (rest : List Char) : declarationsIn (' ' :: '\x7d' :: ';' :: rest) = declarationsIn rest :=
  @declarationsIn_piece [' ', '\x7d'] ';' rfl rfl rest

theorem Stmt.Derives.declarationsIn_text {ts : List Token} {s : Stmt} (h : Stmt.Derives ts s)
    (hn : ∀ x, .name x ∈ ts → IsName x) (known : Declared) (rest : List Char) :
    declarationsIn ((CStmt.ofStmt known s).1.text.toList ++ rest) =
      (CStmt.ofStmt known s).1.declarations ++ declarationsIn rest := by
  induction h generalizing known rest with
  | @assign x ts e he =>
    have hx : IsName x := hn x (by simp)
    have hvalue := (he.readable (fun y hy => hn y (by simp [hy]))).names
    rw [CStmt.ofStmt]
    cases known.has x with
    | true => simpa [CStmt.text, CStmt.declarations, Lead.text, Lead.declared] using
        @Lead.declarationsIn_value (.assign x) e hx hvalue rest
    | false => simpa [CStmt.text, CStmt.declarations, Lead.text, Lead.declared] using
        @Lead.declarationsIn_value (.declare x) e hx hvalue rest
  | @ret ts e he =>
    have hvalue := (he.readable (fun y hy => hn y (by simp [hy]))).names
    simpa [CStmt.ofStmt, CStmt.text, CStmt.declarations, Lead.text, Lead.declared] using
      @Lead.declarationsIn_value .ret e trivial hvalue rest
  | @expr ts e he =>
    have hvalue := (he.readable hn).names
    simpa [CStmt.ofStmt, CStmt.text, CStmt.declarations, Lead.text, Lead.declared] using
      @Lead.declarationsIn_value .bare e trivial hvalue rest
  | @function name params breaks ts s _ _ ih =>
    have hname : IsName name := hn name (by simp [signatureTokens])
    have hparams : ∀ x ∈ params, IsName x := fun x hx => hn x (by simp [signatureTokens, name_mem_nameTokens hx])
    have hbody := ih (fun y hy => hn y (by simp [hy])) (Declared.ofParameters params)
    have htext : (CStmt.ofStmt known (.function name params [s])).1.text.toList ++ rest = headText name params ++
        '\x7b' :: ' ' :: ((CStmt.ofStmt (Declared.ofParameters params) s).1.text.toList ++
          ' ' :: '\x7d' :: ';' :: rest) := by
      simp [CStmt.ofStmt, CStmt.ofStmts, CStmt.text, CStmt.texts, headText]
    rw [htext, declarationsIn_headText hname hparams, declarationsIn_space, hbody, declarationsIn_close]
    simp [CStmt.ofStmt, CStmt.ofStmts, CStmt.declarations, CStmt.allDeclarations]

theorem declarationsIn_ofStmts {p : Program}
    (h : ∀ s ∈ p, ∀ known rest, declarationsIn ((CStmt.ofStmt known s).1.text.toList ++ rest) =
      (CStmt.ofStmt known s).1.declarations ++ declarationsIn rest) (known : Declared) :
    declarationsIn (Code.text (CStmt.ofStmts known p).1).toList =
      CStmt.allDeclarations (CStmt.ofStmts known p).1 := by
  induction p generalizing known with
  | nil => rfl
  | cons s p ih =>
    obtain ⟨hs, hp⟩ := List.forall_mem_cons.1 h
    rcases p with _ | ⟨s', p⟩
    · simpa [CStmt.ofStmts, CStmt.texts, CStmt.allDeclarations, Code.text, declarationsIn_nil] using hs known []
    · have hfirst := hs known (' ' :: (Code.text (CStmt.ofStmts (CStmt.ofStmt known s).2 (s' :: p)).1).toList)
      rw [declarationsIn_space, ih hp] at hfirst
      simpa [CStmt.ofStmts, CStmt.texts, CStmt.allDeclarations, Code.text, String.intercalate_cons_cons] using hfirst

theorem Program.Derives.declarationsIn_text {ts : List Token} {p : Program} (h : Program.Derives ts p)
    (hn : ∀ x, .name x ∈ ts → IsName x) :
    declarationsIn (Code.ofProgram p).text.toList = (Code.ofProgram p).declarations := by
  refine declarationsIn_ofStmts (fun s hs known rest => ?_) Declared.empty
  obtain ⟨us, hsub, hd⟩ := h.stmts s hs
  exact hd.declarationsIn_text (fun x hx => hn x (hsub hx)) known rest

example : declarationsIn "int f(int a) \x7b int b = a; \x7d; int int = b; int = int + 1;".toList = ["b", "int"] := by
  decide +kernel

/-! ## Lines -/

/-- The layout has one line more than the text has line breaks. -/
theorem Lexed.length_depths {script : String} {lexed : Lexed} (h : Lexed.ofString script = .ok lexed) :
    lexed.layout.depths.length = script.toList.count '\n' + 1 := by
  obtain ⟨blanks, pieces, hcut, htokens⟩ := (Lexed.ofString_eq_ok_iff.1 h).tokenizes.exists_cut
  have hbreaks : script.toList.count '\n' = lexed.tokens.count .newline := by
    rw [hcut.text, List.count_append, List.count_eq_zero.2 (not_break_of_isBlank hcut.blank), Nat.zero_add,
      Piece.count_break, htokens]
  have hcomplete : lexed.layout.depths.length = _ := Lexed.complete_of_ofString h
  rw [hcomplete, hbreaks]

/-! ## What is told -/

/-- What a log at the finest level has of a script. -/
def records (script : String) : List (LogLevel × String) := (compile script).events.map Event.record

def lexedRecord (tokens lines : Nat) : LogLevel × String :=
  (.debug, "lexed " ++ Nat.repr tokens ++ " tokens over " ++ Nat.repr lines ++ " lines")

def parsedRecord (statements : Nat) : LogLevel × String :=
  (.debug, "parsed " ++ Nat.repr statements ++ " top-level statements")

def declaringRecord (name : String) : LogLevel × String := (.trace, "declaring '" ++ name ++ "'")

def generatedRecord (bytes : Nat) : LogLevel × String :=
  (.debug, "generated " ++ Nat.repr bytes ++ " bytes of output")

/-- Nothing is told of a script with a bad lexeme, and of one with a wrong token only what the lexer did. Of
    any other is told what the lexer and the parser did, each declaration that the text of its code has, from
    left to right, and how long the text is. A writer that tells each declaration when it writes it
    comes to that text, and tells the same. -/
theorem log_tells_what_was_done (script : String) :
    (∀ bad, Lexed.ofString script = .error bad → records script = []) ∧
      ∀ lexed, Lexed.ofString script = .ok lexed →
        (∀ wrong, Program.ofTokens (some lexed.layout) lexed.tokens = .error wrong →
          records script = [lexedRecord lexed.tokens.length (script.toList.count '\n' + 1)]) ∧
        ∀ program, Program.ofTokens (some lexed.layout) lexed.tokens = .ok program →
          ∃ text, (compile script).result = .ok text ∧
            records script =
              [lexedRecord lexed.tokens.length (script.toList.count '\n' + 1), parsedRecord program.length] ++
                (declarationsIn text.toList).map declaringRecord ++ [generatedRecord text.utf8ByteSize] ∧
            program.write =
              (text, (declarationsIn text.toList).map Event.declaring ++ [.generated text.utf8ByteSize]) := by
  refine ⟨fun bad hbad => ?_, fun lexed hlex => ⟨fun wrong hwrong => ?_, fun program hprogram => ?_⟩⟩
  · rw [records, compile, hbad]
    rfl
  · rw [← Lexed.length_depths hlex, records, compile, hlex]
    simp only [hwrong]
    rfl
  · have hnames := (Lexed.ofString_eq_ok_iff.1 hlex).isName
    have hdeclared := (Program.derives_of_ofTokens hprogram).declarationsIn_text hnames
    refine ⟨(Code.ofProgram program).text, compile_result_eq_ok.2 ⟨lexed, program, hlex, hprogram, rfl⟩, ?_, ?_⟩
    · rw [← Lexed.length_depths hlex, hdeclared, records, compile, hlex]
      simp only [hprogram, Code.events, List.map_cons, List.map_append, List.map_map]
      rfl
    · rw [hdeclared]
      exact program.write_eq

end ScriptToC
