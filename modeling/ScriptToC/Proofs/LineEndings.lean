/-
  ScriptToC.Proofs.LineEndings — a carriage return in front of every line break changes nothing
  (`compile_withReturns`).

  It is a blank. It joins no lexeme, and places behind the line break do not know of it. Only where a line
  is blank does it count as indentation, and no rule ever asks for the depth of such a line.
-/

import ScriptToC.Compile
import ScriptToC.Proofs.BadLexemes
import ScriptToC.Proofs.LineNumbers
import ScriptToC.Proofs.Lockstep

namespace ScriptToC

open Cursor

def addReturns (cs : List Char) : List Char := cs.flatMap fun c => if c = '\n' then ['\r', '\n'] else [c]

/-- The text with a carriage return in front of every line break. -/
def withReturns (script : String) : String := String.ofList (addReturns script.toList)

/-! ## The characters -/

@[simp] theorem addReturns_nil : addReturns [] = [] := rfl

theorem addReturns_break (cs : List Char) : addReturns ('\n' :: cs) = '\r' :: '\n' :: addReturns cs := rfl

theorem addReturns_cons {c : Char} (h : c ≠ '\n') (cs : List Char) : addReturns (c :: cs) = c :: addReturns cs := by
  rw [addReturns, List.flatMap_cons, if_neg h]
  rfl

theorem addReturns_append (cs ds : List Char) : addReturns (cs ++ ds) = addReturns cs ++ addReturns ds :=
  List.flatMap_append

theorem addReturns_of_no_break {cs : List Char} (h : '\n' ∉ cs) : addReturns cs = cs := by
  induction cs with
  | nil => rfl
  | cons c cs ih =>
    obtain ⟨hc, hcs⟩ := List.ne_and_not_mem_of_not_mem_cons h
    rw [addReturns_cons (Ne.symm hc), ih hcs]

theorem head?_addReturns {cs : List Char} {d : Char} (h : d ∈ (addReturns cs).head?) : d ∈ cs.head? ∨ d = '\r' := by
  rcases cs with _ | ⟨c, cs⟩
  · cases h
  · by_cases hc : c = '\n'
    · rw [hc, addReturns_break] at h
      exact .inr (Option.some.inj h).symm
    · rw [addReturns_cons hc] at h
      exact .inl h

theorem getLast?_addReturns (cs : List Char) : (addReturns cs).getLast? = cs.getLast? := by
  induction cs using List.reverseRecOn with
  | nil => rfl
  | append_singleton cs c _ =>
    rw [addReturns_append]
    by_cases hc : c = '\n'
    · rw [hc, addReturns_break]
      simp
    · rw [addReturns_cons hc]
      simp

theorem Place.after_addReturns (p : Place) (cs : List Char) : p.after (addReturns cs) = p.after cs := by
  induction cs generalizing p with
  | nil => rfl
  | cons c cs ih =>
    by_cases hc : c = '\n'
    · rw [hc, addReturns_break, Place.after_cons, Place.after_cons, ih, Place.after_cons]
      rfl
    · rw [addReturns_cons hc, Place.after_cons, ih, Place.after_cons]

/-! ## The lexemes -/

theorem Tokenizes.addReturns {cs : List Char} {ts : List Token} (h : Tokenizes cs ts) :
    Tokenizes (ScriptToC.addReturns cs) ts := by
  induction h with
  | nil => exact .nil
  | @blank b rest ts hb _ ih =>
    have hne : b ≠ '\n' := fun heq => by
      rw [heq] at hb
      cases hb
    rw [addReturns_cons hne]
    exact .blank hb ih
  | @lexeme t w rest ts hspelt hfuses _ ih =>
    rw [addReturns_append]
    by_cases ht : t = .newline
    · subst ht
      cases hspelt
      exact .blank rfl (.lexeme .newline (fun d _ hd => by cases hd) ih)
    · rw [addReturns_of_no_break (hspelt.no_break ht)]
      refine .lexeme hspelt (fun d hd hfuse => ?_) ih
      rcases head?_addReturns hd with hd | rfl
      · exact hfuses d hd hfuse
      · cases hfuse.not_blank

theorem StopsAt.addReturns {text front x rest : List Char} (h : StopsAt text front x rest) :
    StopsAt (ScriptToC.addReturns text) (ScriptToC.addReturns front) x (ScriptToC.addReturns rest) := by
  rcases h with ⟨rfl, ⟨ts, hts⟩, hapart, hx⟩
  refine ⟨?_, ⟨ts, hts.addReturns⟩, ?_, hx.before (fun d hd => ?_)⟩
  · rw [addReturns_append, addReturns_append, addReturns_of_no_break hx.not_break]
  · unfold StandsApart
    rw [getLast?_addReturns]
    exact hapart
  · rcases head?_addReturns hd with hd | rfl
    · exact .inl hd
    · exact .inr (by decide)

theorem Lexed.ofString_withReturns_of_error {script : String} {e : BadLexeme} (h : Lexed.ofString script = .error e) :
    Lexed.ofString (withReturns script) = .error e := by
  obtain ⟨front, x, rest, hstops, rfl⟩ := Lexed.ofString_eq_error_iff.1 h
  refine Lexed.ofString_eq_error_iff.2 ⟨addReturns front, x, addReturns rest, ?_, ?_⟩
  · rw [withReturns, String.toList_ofList]
    exact hstops.addReturns
  · rw [Place.after_addReturns]

theorem Lexed.ofString_withReturns_of_ok {script : String} {lexed : Lexed} (h : Lexed.ofString script = .ok lexed) :
    ∃ layout, Lexed.ofString (withReturns script) = .ok ⟨lexed.tokens, layout⟩ := by
  obtain ⟨layout, hscanned⟩ := (Lexed.ofString_eq_ok_iff.1 h).tokenizes.addReturns.scanned true
  refine ⟨layout, Lexed.ofString_eq_ok_iff.2 ?_⟩
  rwa [withReturns, String.toList_ofList]

/-! ## The lines -/

/-- A line, with a carriage return at its end or without one. -/
def Returned (line line' : List Char) : Prop := line' = line ∨ line' = line ++ ['\r']

theorem splitOn_addReturns (cs : List Char) :
    List.Forall₂ Returned (cs.splitOn '\n') ((addReturns cs).splitOn '\n') := by
  induction cs with
  | nil => exact .cons (.inl rfl) .nil
  | cons c cs ih =>
    by_cases hc : c = '\n'
    · rw [hc, addReturns_break, List.splitOn_cons_eq_if_modifyHead, List.splitOn_cons_eq_if_modifyHead,
        List.splitOn_cons_eq_if_modifyHead]
      exact .cons (.inr rfl) ih
    · rw [addReturns_cons hc, List.splitOn_cons_eq_if_modifyHead, List.splitOn_cons_eq_if_modifyHead,
        if_neg (by simpa using hc), if_neg (by simpa using hc)]
      generalize cs.splitOn '\n' = lines at ih ⊢
      generalize (addReturns cs).splitOn '\n' = lines' at ih ⊢
      cases ih with
      | nil => exact .nil
      | cons hline hlines => exact .cons (hline.imp (congrArg (c :: ·)) (congrArg (c :: ·))) hlines

theorem lineText_withReturns (script : String) (line : Nat) :
    Returned (lineText script line) (lineText (withReturns script) line) := by
  unfold lineText
  rw [withReturns, String.toList_ofList]
  generalize line - 1 = k
  have hlines := splitOn_addReturns script.toList
  generalize script.toList.splitOn '\n' = lines at hlines ⊢
  generalize (addReturns script.toList).splitOn '\n' = lines' at hlines ⊢
  induction hlines generalizing k with
  | nil => exact .inl rfl
  | cons hline _ ih =>
    rcases k with _ | k
    · exact hline
    · exact ih k

theorem Returned.leadingBlanks_eq {line line' : List Char} (h : Returned line line')
    (hnot : ¬∀ c ∈ line, isBlank c = true) : leadingBlanks line' = leadingBlanks line := by
  rcases exists_blanks line with hall | ⟨blanks, c, tail, rfl, hblanks, hc⟩
  · exact absurd hall hnot
  · rcases h with rfl | rfl
    · rfl
    · rw [List.append_assoc, List.cons_append, leadingBlanks, leadingBlanks, takeWhile_isBlank hblanks hc,
        takeWhile_isBlank hblanks hc]

/-- The depth of a line with a token on it. -/
theorem depth_withReturns {script : String} {lexed lexed' : Lexed} (h : Lexed.ofString script = .ok lexed)
    (h' : Lexed.ofString (withReturns script) = .ok lexed') {i : Nat} (hi : (before lexed.tokens i).OnToken) :
    (before lexed.tokens i).depth lexed'.layout = (before lexed.tokens i).depth lexed.layout := by
  obtain ⟨t, ht, hne⟩ := hi
  have htoken : TokenBehind lexed.tokens (before lexed.tokens i).line := ⟨i, t, by rwa [← List.head?_drop], hne, rfl⟩
  have hnot := (not_blankLine_iff h _).2 htoken
  rw [Cursor.depth, Cursor.depth, ← indentation_eq h, ← indentation_eq h']
  exact (lineText_withReturns script _).leadingBlanks_eq hnot

theorem sameOrder_withReturns {script : String} {lexed lexed' : Lexed} (h : Lexed.ofString script = .ok lexed)
    (h' : Lexed.ofString (withReturns script) = .ok lexed') :
    SameOrder lexed.tokens (some lexed.layout) (some lexed'.layout) := by
  intro i j hi hj
  rw [Option.map_some, Option.map_some, depth_withReturns h h' hi, depth_withReturns h h' hj]

/-- The line ending does not matter: the code is the same, or the error, and so is what is told. -/
theorem compile_withReturns (script : String) : compile (withReturns script) = compile script := by
  unfold compile
  cases h : Lexed.ofString script with
  | error e => rw [Lexed.ofString_withReturns_of_error h]
  | ok lexed =>
    obtain ⟨layout, h'⟩ := Lexed.ofString_withReturns_of_ok h
    have hprogram := Program.ofTokens_eq_of_sameOrder (sameOrder_withReturns h h')
    have hlength : layout.depths.length = lexed.layout.depths.length :=
      (Lexed.complete_of_ofString h').trans (Lexed.complete_of_ofString h).symm
    rw [h']
    dsimp only at hprogram ⊢
    rw [hprogram, hlength]

example : (compile "def f(a):\r\n  a + 1\r\n\r\nx = f(2)").result = (compile "def f(a):\n  a + 1\n\nx = f(2)").result := by
  decide +kernel

end ScriptToC
