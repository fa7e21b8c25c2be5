/-
  ScriptToC.Proofs.JoinedTokens — two texts with a line break between them: their tokens, their lines, and the
  functions among the tokens.

  A lexeme never goes over a line break, so the tokens and the lines of the whole are those of the parts
  (`Lexed.ofString_join`). Nothing about a function of the second part changes, and nothing about one of the
  first part, except that what was behind a tail function is now the first token of the second part
  (`FunctionAt.bodyMayEnd_join_iff`).
-/

import ScriptToC.Proofs.LayoutRejects
import ScriptToC.Proofs.TailFunctions

namespace ScriptToC

open Cursor

/-! ## Texts -/

/-- The tokens and the lines of two texts that a line break joins. -/
def Lexed.join (l m : Lexed) : Lexed :=
  ⟨l.tokens ++ .newline :: m.tokens, ⟨l.layout.depths ++ m.layout.depths⟩⟩

theorem Lexed.prepend_join (depths : List Nat) (t : Token) (l m : Lexed) :
    (l.prepend depths t).join m = (l.join m).prepend depths t := by
  simp [join, prepend]

theorem takeWhile_append_stop {p : Char → Bool} {c : Char} (hc : p c = false) (cs rest : List Char) :
    (cs ++ c :: rest).takeWhile p = cs.takeWhile p ∧ (cs ++ c :: rest).dropWhile p = cs.dropWhile p ++ c :: rest := by
  induction cs with
  | nil => simp [hc]
  | cons d cs ih =>
    cases hd : p d with
    | true => simp [hd, ih.1, ih.2]
    | false => simp [hd]

theorem joins_break (c : Char) : joins c '\n' = false := by simp [joins]

/-- A lexeme does not go over a line break. -/
theorem munch_append_break (c : Char) (tail rest : List Char) :
    munch c (tail ++ '\n' :: rest) = ((munch c tail).1, (munch c tail).2 ++ '\n' :: rest) := by
  unfold munch
  split
  · obtain ⟨htake, hdrop⟩ := takeWhile_append_stop (p := Char.isDigit) (c := '\n') rfl tail rest
    rw [htake, hdrop]
  · split
    · obtain ⟨htake, hdrop⟩ := takeWhile_append_stop (p := isNameChar) (c := '\n') rfl tail rest
      rw [htake, hdrop]
    · rcases tail with _ | ⟨d, tail⟩
      · simp [joins_break]
      · rw [List.cons_append]
        dsimp only
        split <;> rfl

theorem Scanned.join {lineStart : Bool} {cs ds : List Char} {l m : Lexed} (h : Scanned lineStart cs l)
    (h' : Scanned true ds m) : Scanned lineStart (cs ++ '\n' :: ds) (l.join m) := by
  induction h with
  | blanks hblanks => exact .newline hblanks h'
  | newline hblanks _ ih =>
    rw [List.append_assoc, List.cons_append, Lexed.prepend_join]
    exact .newline hblanks ih
  | @lexeme lineStart blanks c tail t l hblanks hc ht hne _ ih =>
    rw [List.append_assoc, List.cons_append, Lexed.prepend_join]
    have hmunch := munch_append_break c tail ds
    refine .lexeme hblanks hc ?_ hne ?_
    · rw [hmunch]
      exact ht
    · rw [hmunch]
      exact ih

/-- There is a line behind each line break, and the first one. -/
theorem Scanned.depths_length {lineStart : Bool} {cs : List Char} {l : Lexed} (h : Scanned lineStart cs l) :
    l.layout.depths.length = l.tokens.count .newline + if lineStart then 1 else 0 := by
  induction h with
  | @blanks lineStart _ _ => cases lineStart <;> rfl
  | @newline lineStart _ _ _ _ _ ih =>
    rw [Lexed.prepend, List.length_append, ih, List.count_cons_self]
    cases lineStart with
    | true =>
      simp
      omega
    | false => simp
  | @lexeme lineStart _ _ _ _ _ _ _ _ hne _ ih =>
    rw [Lexed.prepend, List.length_append, ih, List.count_cons_of_ne hne]
    cases lineStart with
    | true =>
      simp
      omega
    | false => simp

variable {first second : String} {l m : Lexed}

theorem Lexed.ofString_join (h : Lexed.ofString first = .ok l) (h' : Lexed.ofString second = .ok m) :
    Lexed.ofString (first ++ "\n" ++ second) = .ok (l.join m) := by
  rw [Lexed.ofString_eq_ok_iff] at h h' ⊢
  have hchars : (first ++ "\n" ++ second).toList = first.toList ++ '\n' :: second.toList := by simp
  rw [hchars]
  exact h.join h'

/-! ## Tokens in front of others, and behind them -/

section

variable {ts us : List Token} {i j head start stop : Nat}

theorem Cursor.before_front_line (front ts : List Token) (i : Nat) :
    (before (front ++ ts) (front.length + i)).line = front.count .newline + (before ts i).line := by
  simp [before, List.take_length_add_append]

theorem Cursor.before_front_rest (front ts : List Token) (i : Nat) :
    (before (front ++ ts) (front.length + i)).rest = (before ts i).rest := by
  simp [before, List.drop_length_add_append]

theorem Cursor.before_append_line (h : i ≤ ts.length) (behind : List Token) :
    (before (ts ++ behind) i).line = (before ts i).line := by
  simp [before, List.take_append_of_le_length h]

theorem Cursor.before_append_rest (h : i ≤ ts.length) (behind : List Token) :
    (before (ts ++ behind) i).rest = (before ts i).rest ++ behind := by
  simp [before, List.drop_append_of_le_length h]

theorem Cursor.Passes.front (h : (before ts i).Passes us (before ts j)) (front : List Token) :
    (before (front ++ ts) (front.length + i)).Passes us (before (front ++ ts) (front.length + j)) := by
  have hj : j = i + us.length := h.index
  refine ⟨?_, ?_, ?_⟩
  · rw [before_front_rest, before_front_rest, h.rest]
  · show front.length + j = front.length + i + us.length
    omega
  · rw [before_front_line, before_front_line, h.line, Nat.add_assoc]

theorem Cursor.Passes.append (h : (before ts i).Passes us (before ts j)) (hj : j ≤ ts.length) (behind : List Token) :
    (before (ts ++ behind) i).Passes us (before (ts ++ behind) j) := by
  have hij : i ≤ j := h.index_le
  refine ⟨?_, h.index, ?_⟩
  · rw [before_append_rest (by omega), before_append_rest hj, h.rest, List.append_assoc]
  · rw [before_append_line hj, before_append_line (show i ≤ ts.length by omega), h.line]

theorem FunctionAt.front (h : FunctionAt ts head start stop) (front : List Token) :
    FunctionAt (front ++ ts) (front.length + head) (front.length + start) (front.length + stop) := by
  cases h with
  | intro hhead hbreaks hbody hs hend =>
    refine .intro (hhead.front front) hbreaks (hbody.front front) hs ?_
    intro t ht
    rw [before_front_rest] at ht
    exact hend t ht

theorem FunctionAt.append (h : FunctionAt ts head start stop) {behind : List Token}
    (hbehind : ∀ t ∈ behind.head?, t.isSeparator = true) : FunctionAt (ts ++ behind) head start stop := by
  have hlt := h.lt
  cases h with
  | intro hhead hbreaks hbody hs hend =>
    refine .intro (hhead.append (by omega) behind) hbreaks (hbody.append hlt.2.2 behind) hs ?_
    intro t ht
    rw [before_append_rest hlt.2.2, List.head?_append, Option.mem_def, Option.or_eq_some_iff] at ht
    rcases ht with ht | ⟨-, ht⟩
    · exact hend t ht
    · exact hbehind t ht

theorem behindBreaks_lt (h : ¬∀ t ∈ ts.drop i, t = .newline) : behindBreaks ts i < ts.length := by
  have hne : ((ts.drop i).takeWhile (· = .newline)).length ≠ (ts.drop i).length := by
    intro heq
    refine h (fun t ht => ?_)
    rw [← (List.takeWhile_sublist _).eq_of_length heq] at ht
    simpa using List.all_eq_true.1 List.all_takeWhile t ht
  have hle := (List.takeWhile_sublist (fun t : Token => decide (t = .newline)) (l := ts.drop i)).length_le
  rw [List.length_drop] at hne hle
  rw [behindBreaks]
  omega

/-- What is behind the line breaks stays there, if there is something. -/
theorem behindBreaks_append (h : ¬∀ t ∈ ts.drop i, t = .newline) (behind : List Token) :
    behindBreaks (ts ++ behind) i = behindBreaks ts i := by
  have hlt := behindBreaks_lt h
  rw [behindBreaks] at hlt
  rw [behindBreaks, behindBreaks, List.drop_append_of_le_length (by omega), List.takeWhile_append, List.length_drop,
    if_neg (by omega)]

theorem behindBreaks_breaks {front : List Token} (hi : i ≤ front.length) (h : ∀ t ∈ front.drop i, t = .newline)
    (ts : List Token) : behindBreaks (front ++ ts) i = front.length + behindBreaks ts 0 := by
  have hall : ∀ t ∈ front.drop i, decide (t = .newline) = true := by simpa using h
  rw [behindBreaks, behindBreaks, List.drop_append_of_le_length hi, List.takeWhile_append_of_pos hall,
    List.length_append, List.length_drop, List.drop_zero]
  omega

theorem behindBreaks_front (front ts : List Token) (i : Nat) :
    behindBreaks (front ++ ts) (front.length + i) = front.length + behindBreaks ts i := by
  rw [behindBreaks, behindBreaks, List.drop_length_add_append, Nat.add_assoc]

end

/-! ## Lines -/

/-- The layout has one line more than the tokens have line breaks. -/
def Lexed.Complete (l : Lexed) : Prop := l.layout.depths.length = l.tokens.count .newline + 1

theorem Lexed.complete_of_ofString (h : Lexed.ofString first = .ok l) : l.Complete :=
  (Lexed.ofString_eq_ok_iff.1 h).depths_length

/-- What stands in front of the second part: the first part and the line break. -/
def Lexed.front (l : Lexed) : List Token := l.tokens ++ [.newline]

theorem Lexed.length_front (l : Lexed) : l.front.length = l.tokens.length + 1 := by simp [front]

theorem Lexed.tokens_join (l m : Lexed) : (l.join m).tokens = l.front ++ m.tokens := by simp [join, front]

theorem depthAt_join_left (h : l.Complete) {i : Nat} (hi : i ≤ l.tokens.length) :
    depthAt (l.join m).layout (l.join m).tokens i = depthAt l.layout l.tokens i := by
  have hcount : (l.tokens.take i).count .newline ≤ l.tokens.count .newline := (List.take_sublist i _).count_le _
  have htake : (l.join m).tokens.take i = l.tokens.take i := List.take_append_of_le_length hi
  rw [depthAt, depthAt, htake, Layout.depth, Layout.depth, Lexed.join, List.getElem?_append_left]
  rw [h]
  omega

theorem depthAt_join_right (h : l.Complete) (i : Nat) :
    depthAt (l.join m).layout (l.join m).tokens (l.front.length + i) =
      depthAt m.layout m.tokens i := by
  have hcount : ((l.join m).tokens.take (l.front.length + i)).count .newline =
      l.layout.depths.length + (m.tokens.take i).count .newline := by
    rw [Lexed.tokens_join, List.take_length_add_append, List.count_append, Lexed.front, List.count_append, h]
    rfl
  rw [depthAt, depthAt, hcount, Layout.depth, Layout.depth, Lexed.join, List.getElem?_append_right (Nat.le_add_right _ _),
    Nat.add_sub_cancel_left]

theorem Lexed.length_join (l m : Lexed) : (l.join m).tokens.length = l.front.length + m.tokens.length := by
  rw [tokens_join, List.length_append]

/-! ## What a layout asks of the functions -/

section

variable {head start stop : Nat}

theorem FunctionAt.join_left (hfun : FunctionAt l.tokens head start stop) (m : Lexed) :
    FunctionAt (l.join m).tokens head start stop :=
  hfun.append (fun t ht => by cases ht; rfl)

theorem FunctionAt.join_right (hfun : FunctionAt m.tokens head start stop) (l : Lexed) :
    FunctionAt (l.join m).tokens (l.front.length + head) (l.front.length + start) (l.front.length + stop) := by
  rw [Lexed.tokens_join]
  exact hfun.front l.front

/-- A function of the second part keeps the rules among all tokens if it does among its own. -/
theorem FunctionAt.laidOut_join_right_iff (h : l.Complete) (hfun : FunctionAt m.tokens head start stop) :
    LaidOut (some (l.join m).layout) (before (l.join m).tokens (l.front.length + head))
        (before (l.join m).tokens (l.front.length + start)) (before (l.join m).tokens (l.front.length + stop)) ↔
      LaidOut (some m.layout) (before m.tokens head) (before m.tokens start) (before m.tokens stop) := by
  have hlt := hfun.lt
  have hlength := Lexed.length_join l m
  have hget : (l.join m).tokens[l.front.length + stop]? = m.tokens[stop]? := by
    rw [Lexed.tokens_join, List.getElem?_append_right (Nat.le_add_right _ _), Nat.add_sub_cancel_left]
  have hbreaks : behindBreaks (l.join m).tokens (l.front.length + stop) = l.front.length + behindBreaks m.tokens stop := by
    rw [Lexed.tokens_join, behindBreaks_front]
  have hline : ∀ i, (before (l.join m).tokens (l.front.length + i)).line = l.front.count .newline + (before m.tokens i).line := by
    intro i
    rw [Lexed.tokens_join, before_front_line]
  rw [LaidOut, LaidOut, bodyMayStart_iff_depthAt (by omega), bodyMayStart_iff_depthAt (by omega),
    bodyMayEnd_iff_depthAt, bodyMayEnd_iff_depthAt, hline, hline, hget, hbreaks, hlength]
  simp only [depthAt_join_right h, Nat.add_lt_add_iff_left, Nat.add_left_cancel_iff]

theorem Lexed.join_left_line (m : Lexed) {i : Nat} (hi : i ≤ l.tokens.length) :
    (before (l.join m).tokens i).line = (before l.tokens i).line :=
  before_append_line hi _

theorem FunctionAt.bodyMayStart_join_left (h : l.Complete) (hfun : FunctionAt l.tokens head start stop) (m : Lexed) :
    bodyMayStart (some (l.join m).layout) (before (l.join m).tokens head) (before (l.join m).tokens start) = true ↔
      bodyMayStart (some l.layout) (before l.tokens head) (before l.tokens start) = true := by
  have hlt := hfun.lt
  have hlength := Lexed.length_join l m
  have hfront := l.length_front
  rw [bodyMayStart_iff_depthAt (by omega), bodyMayStart_iff_depthAt (by omega), depthAt_join_left h (by omega),
    depthAt_join_left h (by omega)]

/-- So does a function of the first part that does not end it. -/
theorem FunctionAt.laidOut_join_left_iff (h : l.Complete) (hfun : FunctionAt l.tokens head start stop)
    (hmore : ¬∀ t ∈ l.tokens.drop stop, t = .newline) (m : Lexed) :
    LaidOut (some (l.join m).layout) (before (l.join m).tokens head) (before (l.join m).tokens start)
        (before (l.join m).tokens stop) ↔
      LaidOut (some l.layout) (before l.tokens head) (before l.tokens start) (before l.tokens stop) := by
  have hlt := hfun.lt
  have hlength := Lexed.length_join l m
  have hfront := l.length_front
  have hless := behindBreaks_lt hmore
  have hbreaks : behindBreaks (l.join m).tokens stop = behindBreaks l.tokens stop := behindBreaks_append hmore _
  have hstop : stop < l.tokens.length := by
    by_cases hle : l.tokens.length ≤ stop
    · exact absurd (by simp [List.drop_eq_nil_iff.2 hle]) hmore
    · omega
  have hget : (l.join m).tokens[stop]? = l.tokens[stop]? := List.getElem?_append_left hstop
  rw [LaidOut, LaidOut, hfun.bodyMayStart_join_left h, bodyMayEnd_iff_depthAt, bodyMayEnd_iff_depthAt,
    Lexed.join_left_line m (by omega), Lexed.join_left_line m (by omega), hget, hbreaks,
    depthAt_join_left h (by omega), depthAt_join_left h (by omega)]
  have hsame : behindBreaks l.tokens stop < (l.join m).tokens.length ↔ behindBreaks l.tokens stop < l.tokens.length :=
    iff_of_true (by omega) hless
  rw [hsame]

/-! ## The functions that end the first part -/

theorem FunctionAt.behindBreaks_join (hfun : FunctionAt l.tokens head start stop)
    (hbreaks : ∀ t ∈ l.tokens.drop stop, t = .newline) (m : Lexed) :
    behindBreaks (l.join m).tokens stop = l.front.length + behindBreaks m.tokens 0 := by
  have hlt := hfun.lt
  have hfront := l.length_front
  rw [Lexed.tokens_join]
  refine behindBreaks_breaks (by omega) (fun t ht => ?_) m.tokens
  rw [Lexed.front, List.drop_append_of_le_length hlt.2.2, List.mem_append, List.mem_singleton] at ht
  rcases ht with ht | ht
  · exact hbreaks t ht
  · exact ht

/-- The body of a function that ends the first part may end there if the first token of the second part,
    line breaks aside, is not deeper than the function. -/
theorem FunctionAt.bodyMayEnd_join_iff (h : l.Complete) (hfun : FunctionAt l.tokens head start stop)
    (hbreaks : ∀ t ∈ l.tokens.drop stop, t = .newline) (hmore : behindBreaks m.tokens 0 < m.tokens.length) :
    bodyMayEnd (some (l.join m).layout) (before (l.join m).tokens head) (before (l.join m).tokens stop) = true ↔
      depthAt m.layout m.tokens (behindBreaks m.tokens 0) ≤ depthAt l.layout l.tokens head := by
  have hlt := hfun.lt
  have hlength := Lexed.length_join l m
  have hget : (l.join m).tokens[stop]? = some .newline := by
    by_cases hstop : stop < l.tokens.length
    · have hget := List.getElem?_eq_getElem hstop
      rw [Lexed.join, List.getElem?_append_left hstop, hget, hbreaks _ (mem_drop_of_getElem? hget (Nat.le_refl stop))]
    · obtain rfl : stop = l.tokens.length := by omega
      simp [Lexed.join]
  rw [bodyMayEnd_iff_depthAt, hfun.behindBreaks_join hbreaks, depthAt_join_right h, depthAt_join_left h (by omega),
    hlength]
  constructor
  · intro hdepth
    exact hdepth hget (by omega)
  · intro hdepth _ _
    exact hdepth

end

end ScriptToC
