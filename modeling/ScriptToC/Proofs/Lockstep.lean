/-
  ScriptToC.Proofs.Lockstep — two readings that never part.

  Two cursors are related if the same token is next at both, and they stay so over a token that is no
  line break and over all the line breaks that are next (`Lockstep`). Readers look at nothing else but
  which of two lines is deeper. So from related cursors they read the same, or they fail at related
  cursors in the same way: `Lockstep.read`, and for whole programs `Lockstep.ofTokens`.
-/

import ScriptToC.Proofs.Functions
import ScriptToC.Proofs.ViablePrefix

namespace ScriptToC

open Cursor

/-! ## Related cursors -/

/-- A token is next, and it is no line break. -/
def Cursor.OnToken (c : Cursor) : Prop := ∃ t ∈ c.rest.head?, t ≠ .newline

/-- A relation between the cursors of a reading with one layout and those of a reading with another. -/
structure Lockstep (layout layout' : Option Layout) (R : Cursor → Cursor → Prop) : Prop where
  head {c d : Cursor} : R c d → c.rest.head? = d.rest.head?
  next {c c' d d' : Cursor} {t : Token} : R c d → t ≠ .newline → c.Passes [t] c' → d.Passes [t] d' → R c' d'
  breaks {c d : Cursor} : R c d → R c.skipBreaks d.skipBreaks
  deeper {c c' d d' : Cursor} : R c d → R c' d' → c.OnToken → c'.OnToken →
    layout.map (fun l => decide (c.depth l < c'.depth l)) = layout'.map (fun l => decide (d.depth l < d'.depth l))

/-- Two errors that differ in their positions only, which are those of related cursors. -/
structure Failure.Alike (R : Cursor → Cursor → Prop) (f g : Failure) : Prop where
  error : ∃ c d x, R c d ∧ f.error = (c.fail x).error ∧ g.error = (d.fail x).error
  stopped : R f.stopped g.stopped

/-- Two results, both of them good or both of them errors. -/
inductive Alike (R : Cursor → Cursor → Prop) {α β : Type} (S : α → β → Prop) :
    Except Failure α → Except Failure β → Prop
  | ok {a : α} {b : β} : S a b → Alike R S (.ok a) (.ok b)
  | error {f g : Failure} : f.Alike R g → Alike R S (.error f) (.error g)

/-- The same is read, up to related cursors. -/
def Read.Alike (R : Cursor → Cursor → Prop) {α : Type} {c d : Cursor} (r : Read α c) (s : Read α d) : Prop :=
  r.value = s.value ∧ R r.next s.next

variable {layout layout' : Option Layout} {R : Cursor → Cursor → Prop} {c c' d d' : Cursor}

theorem Failure.Alike.fail (h : R c d) (x : Expectation) : (c.fail x).Alike R (d.fail x) := ⟨⟨c, d, x, h, rfl, rfl⟩, h⟩

theorem Alike.bind {α β α' β' : Type} {S : α → β → Prop} {S' : α' → β' → Prop} {x : Except Failure α}
    {y : Except Failure β} {k : α → Except Failure α'} {l : β → Except Failure β'} (h : ScriptToC.Alike R S x y)
    (hk : ∀ a b, S a b → ScriptToC.Alike R S' (k a) (l b)) : ScriptToC.Alike R S' (x >>= k) (y >>= l) := by
  cases h with
  | ok hab => exact hk _ _ hab
  | error hfg => exact .error hfg

theorem Alike.require {kept kept' : Bool} {f g : Failure} (hkept : kept = kept') (hfg : f.Alike R g) :
    ScriptToC.Alike R (fun _ _ => True) (ScriptToC.require kept f) (ScriptToC.require kept' g) := by
  subst hkept
  cases kept with
  | false => exact .error hfg
  | true => exact .ok trivial

theorem Cursor.onToken_of (hend : c.atEnd = false) (hnext : c.rest.head? ≠ some .newline) : c.OnToken := by
  cases hhead : c.rest.head? with
  | none =>
    rw [atEnd_iff.2 (List.head?_eq_none_iff.1 hhead)] at hend
    cases hend
  | some t => exact ⟨t, hhead, fun ht => hnext (ht ▸ hhead)⟩

theorem isEmpty_takeWhile {α : Type} (p : α → Bool) (l : List α) : (l.takeWhile p).isEmpty = !l.head?.any p := by
  rcases l with _ | ⟨a, l⟩
  · rfl
  · cases ha : p a <;> simp [ha]

theorem Option.all_of_map_eq {α β : Type} {x : Option α} {y : Option β} {p : α → Bool} {q : β → Bool}
    (h : x.map p = y.map q) : x.all p = y.all q := by
  rcases x with _ | a <;> rcases y with _ | b <;> simp_all

namespace Lockstep

/-! ## What related cursors have in common -/

theorem symm (h : Lockstep layout layout' R) : Lockstep layout' layout (flip R) where
  head hr := (h.head hr).symm
  next hr hne hp hp' := h.next hr hne hp' hp
  breaks hr := h.breaks hr
  deeper {c c' d d'} hr hr' hc hc' := by
    refine (h.deeper hr hr' ?_ ?_).symm
    · rw [OnToken, h.head hr]
      exact hc
    · rw [OnToken, h.head hr']
      exact hc'

/-- Tokens without a line break lie ahead of both. -/
theorem passes (h : Lockstep layout layout' R) {ts : List Token} (hne : .newline ∉ ts) (hr : R c d)
    (hp : c.Passes ts c') : ∃ d', d.Passes ts d' ∧ R c' d' := by
  induction ts generalizing c d with
  | nil =>
    rw [passes_nil.1 hp]
    exact ⟨d, .refl d, hr⟩
  | cons t ts ih =>
    obtain ⟨ht, hts⟩ := List.ne_and_not_mem_of_not_mem_cons hne
    obtain ⟨c₁, hp₁, hp⟩ := hp.uncons
    obtain ⟨d₁, _, hnext⟩ := next?_of_head? ((h.head hr).symm.trans hp₁.head?)
    have hp₁' := passes_of_next? hnext
    obtain ⟨d', hp', hr'⟩ := ih hts (h.next hr (Ne.symm ht) hp₁ hp₁') hp
    exact ⟨d', hp₁'.cons hp', hr'⟩

theorem atEnd (h : Lockstep layout layout' R) (hr : R c d) : c.atEnd = d.atEnd := by
  rw [Bool.eq_iff_iff, atEnd_iff, atEnd_iff, ← List.head?_eq_none_iff, ← List.head?_eq_none_iff, h.head hr]

theorem sameLine (h : Lockstep layout layout' R) (hr : R c d) :
    (c.skipBreaks.line == c.line) = (d.skipBreaks.line == d.line) := by
  rw [Bool.eq_iff_iff, beq_iff_eq, beq_iff_eq, skipBreaks_line_eq_iff, skipBreaks_line_eq_iff, h.head hr]

theorem bodyMayStart (h : Lockstep layout layout' R) (hr : R c d) (hc : c.OnToken) (hr' : R c' d')
    (hnext : c'.rest.head? ≠ some .newline) :
    ScriptToC.bodyMayStart layout c c' = ScriptToC.bodyMayStart layout' d d' := by
  unfold ScriptToC.bodyMayStart
  rw [← h.atEnd hr']
  cases hend : c'.atEnd with
  | true => rfl
  | false =>
    rw [Bool.false_or, Bool.false_or]
    exact Option.all_of_map_eq (h.deeper hr hr' hc (onToken_of hend hnext))

theorem bodyMayEnd (h : Lockstep layout layout' R) (hr : R c d) (hc : c.OnToken) (hr' : R c' d') :
    ScriptToC.bodyMayEnd layout c c' = ScriptToC.bodyMayEnd layout' d d' := by
  unfold ScriptToC.bodyMayEnd
  dsimp only
  have hbelow := h.breaks hr'
  rw [h.sameLine hr', ← h.atEnd hbelow]
  cases hend : c'.skipBreaks.atEnd with
  | true => rw [Bool.or_true, Bool.true_or, Bool.true_or]
  | false =>
    have hdeeper := h.deeper hr hbelow hc (onToken_of hend c'.skipBreaks_head?)
    have hnot := congrArg (Option.map Bool.not) hdeeper
    simp only [Option.map_map, Function.comp_def, ← decide_not, Nat.not_lt] at hnot
    rw [Option.all_of_map_eq hnot]

/-! ## What is read from them -/

theorem expr (h : Lockstep layout layout' R) (hr : R c d) :
    Alike R (Read.Alike R) (Expr.read .conditional c) (Expr.read .conditional d) := by
  have houtcome := Expr.outcome .conditional c
  generalize Expr.read .conditional c = x at houtcome ⊢
  cases houtcome with
  | taken lt hp he =>
    obtain ⟨d', hp', hr'⟩ := h.passes he.derives.no_break hr hp
    obtain ⟨_, hread⟩ := he.reads d d' hp' (h.head hr').symm
    rw [hread]
    exact .ok ⟨rfl, hr'⟩
  | @stuck ts c' x hp hs =>
    obtain ⟨us, e, he⟩ := hs.viable
    obtain ⟨d', hp', hr'⟩ := h.passes (fun hmem => he.no_break (List.mem_append_left us hmem)) hr hp
    have hread : Expr.read .conditional d = _ := hs.fails d d' hp' (h.head hr').symm
    rw [hread]
    exact .error (.fail hr' x)

theorem signature (h : Lockstep layout layout' R) (hr : R c d) :
    Alike R (Read.Alike R) (readHead c) (readHead d) := by
  cases hread : readHead c with
  | ok r =>
    obtain ⟨d', hp', hr'⟩ := h.passes (signature_no_break _ _) hr (passes_of_readHead hread)
    obtain ⟨_, hread'⟩ := hp'.readHead
    rw [hread']
    exact .ok ⟨rfl, hr'⟩
  | error f =>
    obtain ⟨ts, c', x, hp, rfl, hs⟩ := readHead_error hread
    obtain ⟨us, name, params, hsig⟩ := hs.viable
    have hnone : .newline ∉ ts := fun hmem => signature_no_break name params (hsig ▸ List.mem_append_left us hmem)
    obtain ⟨d', hp', hr'⟩ := h.passes hnone hr hp
    rw [hs.fails hp' (h.head hr').symm]
    exact .error (.fail hr' x)

theorem take (h : Lockstep layout layout' R) (hr : R c d) {t : Token} (ht : t ≠ .newline) (hp : c.Passes [t] c') :
    ∃ d' lt, d.next? = some ⟨t, d', lt⟩ ∧ R c' d' := by
  obtain ⟨d', hp', hr'⟩ := h.passes (by simpa using Ne.symm ht) hr hp
  obtain ⟨lt, hnext⟩ := hp'.next?
  exact ⟨d', lt, hnext, hr'⟩

theorem target (h : Lockstep layout layout' R) (hr : R c d) {r : Read String c} (htarget : c.target? = some r) :
    ∃ d' lt, d.target? = some ⟨r.value, d', lt⟩ ∧ R r.next d' := by
  obtain ⟨d', hp', hr'⟩ := h.passes (by simp) hr (passes_of_target? htarget)
  obtain ⟨lt, htarget'⟩ := hp'.target?
  exact ⟨d', lt, htarget', hr'⟩

theorem no_target (h : Lockstep layout layout' R) (hr : R c d) (htarget : c.target? = none) : d.target? = none := by
  cases htarget' : d.target? with
  | none => rfl
  | some r =>
    obtain ⟨_, _, hsome, -⟩ := h.symm.target hr htarget'
    rw [htarget] at hsome
    cases hsome

theorem stmt (h : Lockstep layout layout' R) (hr : R c d) :
    Alike R (Read.Alike R) (Stmt.read layout c) (Stmt.read layout' d) := by
  induction c using Stmt.read.induct generalizing d with
  | case1 c c₁ h₁ hdef ih =>
    have hpdef := passes_of_next? hdef
    have honToken : c.OnToken := ⟨_, hpdef.head?, by simp⟩
    obtain ⟨d₁, _, hdef', hr₁⟩ := h.take hr (by simp) hpdef
    rw [Stmt.read, Stmt.read]
    simp only [hdef, hdef']
    refine (h.signature hr₁).bind (fun r s hrs => ?_)
    rcases r with ⟨⟨f, ps⟩, c₂, h₂⟩
    rcases s with ⟨⟨f', ps'⟩, d₂, h₂'⟩
    obtain ⟨hsame, hr₂⟩ := hrs
    cases hsame
    have hstart := h.breaks hr₂
    have hmayStart := h.bodyMayStart hr honToken hstart c₂.skipBreaks_head?
    refine (Alike.require (by rw [h.sameLine hr₂, hmayStart]) (.fail hstart _)).bind (fun _ _ _ => ?_)
    refine (ih c₂ h₂ hstart).bind (fun r s hrs => ?_)
    rcases r with ⟨body, c₄, h₄⟩
    rcases s with ⟨body', d₄, h₄'⟩
    obtain ⟨hsame, hr₄⟩ := hrs
    cases hsame
    have hmayEnd := h.bodyMayEnd hr honToken hr₄
    refine (Alike.require (by rw [h.sameLine hr₂, hmayEnd]) ?_).bind (fun _ _ _ => .ok ⟨rfl, hr₄⟩)
    exact ⟨⟨_, _, _, h.breaks hr₄, rfl, rfl⟩, hr₄⟩
  | case2 c c₁ h₁ hret =>
    obtain ⟨d₁, _, hret', hr₁⟩ := h.take hr (by simp) (passes_of_next? hret)
    rw [Stmt.read, Stmt.read]
    simp only [hret, hret']
    refine (h.expr hr₁).bind (fun r s hrs => .ok ⟨?_, hrs.2⟩)
    rw [hrs.1]
  | case3 c x c₁ h₁ htarget hdef hret =>
    obtain ⟨d₁, _, htarget', hr₁⟩ := h.target hr htarget
    rw [Stmt.read_of_target? htarget, Stmt.read_of_target? htarget']
    refine (h.expr hr₁).bind (fun r s hrs => .ok ⟨?_, hrs.2⟩)
    rw [hrs.1]
  | case4 c htarget hdef hret =>
    have hdef := head?_ne_of_next? hdef
    have hret := head?_ne_of_next? hret
    rw [Stmt.read_of_no_form htarget hdef hret, Stmt.read_of_no_form (h.no_target hr htarget)
      (h.head hr ▸ hdef) (h.head hr ▸ hret)]
    refine (h.expr hr).bind (fun r s hrs => .ok ⟨?_, hrs.2⟩)
    rw [hrs.1]

/-- Separators end at related cursors. There may be more line breaks on one side. -/
theorem passes_separators {c c' d : Cursor} (h : Lockstep layout layout' R) {separators : List Token}
    (hseps : ∀ t ∈ separators, t.isSeparator = true) (hr : R c d) (hp : c.Passes separators c')
    (hend : ∀ t ∈ c'.rest.head?, t.isSeparator = false) :
    ∃ separators' d', d.Passes separators' d' ∧ R c' d' ∧ (∀ t ∈ separators', t.isSeparator = true) ∧
      (.mark .semicolon ∈ separators ↔ .mark .semicolon ∈ separators') := by
  obtain ⟨breaks', hbreaks', hskip'⟩ := passes_skipBreaks d
  have hseps' : ∀ t ∈ breaks', t.isSeparator = true := fun t ht => by rw [hbreaks' t ht]; rfl
  rcases separators_cases hseps with hbreaks | ⟨breaks, rest, rfl, hbreaks⟩
  · have hskip : c.skipBreaks = c' := hp.skipBreaks hbreaks fun t ht heq => by
      have hsep := hend t ht
      rw [heq] at hsep
      cases hsep
    refine ⟨breaks', d.skipBreaks, hskip', hskip ▸ h.breaks hr, hseps', iff_of_false (fun hmem => ?_) (fun hmem => ?_)⟩
    · cases hbreaks _ hmem
    · cases hbreaks' _ hmem
  · obtain ⟨c₁, hp₁, hp⟩ := hp.split
    obtain ⟨c₂, hsemicolon, hp₂⟩ := hp.uncons
    have hskip : c.skipBreaks = c₁ := hp₁.skipBreaks hbreaks (by rw [hsemicolon.head?]; simp)
    obtain ⟨d₂, hsemicolon', hr₂⟩ := h.passes (by simp) (hskip ▸ h.breaks hr) hsemicolon
    have hrest : ∀ t ∈ rest, t.isSeparator = true := fun t ht => hseps t (by simp [ht])
    obtain ⟨rest', d', hp', hr', hrest', -⟩ := h.passes_separators hrest hr₂ hp₂ hend
    refine ⟨breaks' ++ .mark .semicolon :: rest', d', hskip'.trans (hsemicolon'.cons hp'), hr', fun t ht => ?_,
      by simp⟩
    rcases List.mem_append.1 ht with ht | ht
    · exact hseps' t ht
    · rcases List.mem_cons.1 ht with rfl | ht
      · rfl
      · exact hrest' t ht
termination_by separators.length

theorem separators (h : Lockstep layout layout' R) (hr : R c d) :
    R (c.skipWhile Token.isSeparator) (d.skipWhile Token.isSeparator) ∧
      (c.rest.takeWhile Token.isSeparator).isEmpty = (d.rest.takeWhile Token.isSeparator).isEmpty ∧
      (c.rest.takeWhile Token.isSeparator).contains (.mark .semicolon) =
        (d.rest.takeWhile Token.isSeparator).contains (.mark .semicolon) := by
  have hend : ∀ t ∈ (c.skipWhile Token.isSeparator).rest.head?, t.isSeparator = false := fun t ht => skipWhile_head? ht
  have hseps : ∀ t ∈ c.rest.takeWhile Token.isSeparator, t.isSeparator = true :=
    fun t ht => List.all_eq_true.1 List.all_takeWhile t ht
  obtain ⟨separators', d', hp', hr', hseps', hsemicolon⟩ :=
    h.passes_separators hseps hr (passes_skipWhile _ c) hend
  obtain ⟨htake, rfl⟩ := hp'.skipWhile hseps' (h.head hr' ▸ hend)
  refine ⟨hr', ?_, ?_⟩
  · rw [isEmpty_takeWhile, isEmpty_takeWhile, h.head hr]
  · rw [htake, Bool.eq_iff_iff, List.contains_iff_mem, List.contains_iff_mem, hsemicolon]

/-- What is read of a program, with the cursor behind it. -/
abbrev SameProgram (R : Cursor → Cursor → Prop) (a b : Program × Cursor) : Prop := a.1 = b.1 ∧ R a.2 b.2

/-- A statement and what follows it. -/
theorem cons (h : Lockstep layout layout' R) (hr : R c d)
    (hrest : ∀ (r : Read Stmt c) (s : Read Stmt d), R r.next s.next →
      Alike R (SameProgram R) (Program.readRest layout r.next) (Program.readRest layout' s.next)) :
    Alike R (SameProgram R)
      (do let ⟨s, c₁, _⟩ ← Stmt.read layout c; let (ss, last) ← Program.readRest layout c₁; return (s :: ss, last))
      (do let ⟨s, d₁, _⟩ ← Stmt.read layout' d; let (ss, last) ← Program.readRest layout' d₁; return (s :: ss, last)) := by
  refine (h.stmt hr).bind (fun r s hrs => ?_)
  refine (hrest r s hrs.2).bind (fun a b hab => .ok ⟨?_, hab.2⟩)
  dsimp only
  rw [hrs.1, hab.1]

theorem readRest {c d : Cursor} (h : Lockstep layout layout' R) (hr : R c d) :
    Alike R (SameProgram R) (Program.readRest layout c) (Program.readRest layout' d) := by
  obtain ⟨hnext, hempty, hsemicolon⟩ := h.separators hr
  rw [Program.readRest, Program.readRest, ← h.atEnd hnext, ← hempty, ← hsemicolon]
  split
  · exact .ok ⟨rfl, hnext⟩
  · split
    · exact .error (.fail hr _)
    · exact h.cons hnext (fun r s hrs => h.readRest hrs)
termination_by c.rest.length
decreasing_by exact Nat.lt_of_lt_of_le r.shorter (c.skipWhile_le Token.isSeparator)

/-- From related cursors the same program is read, or reading fails at related cursors. -/
theorem read (h : Lockstep layout layout' R) (hr : R c d) :
    Alike R (SameProgram R) (Program.read layout c) (Program.read layout' d) :=
  h.cons (h.breaks hr) (fun _ _ hrs => h.readRest hrs)

/-- Either reading leaves a cursor, and these are related, too. -/
theorem readFrom (h : Lockstep layout layout' R) (hr : R c d) :
    R (Program.readFrom layout c).2 (Program.readFrom layout' d).2 ∧
      ((∃ p, (Program.readFrom layout c).1 = .ok p ∧ (Program.readFrom layout' d).1 = .ok p) ∨
        ∃ c' d' x, R c' d' ∧ (Program.readFrom layout c).1 = .error (c'.fail x).error ∧
          (Program.readFrom layout' d).1 = .error (d'.fail x).error) := by
  have halike := h.read hr
  unfold Program.readFrom
  generalize Program.read layout c = x at halike ⊢
  generalize Program.read layout' d = y at halike ⊢
  cases halike with
  | @ok a b hab => exact ⟨hab.2, .inl ⟨a.1, rfl, by rw [hab.1]⟩⟩
  | error hfg =>
    obtain ⟨c, d, x, hr, hf, hg⟩ := hfg.error
    exact ⟨hfg.stopped, .inr ⟨c, d, x, hr, congrArg _ hf, congrArg _ hg⟩⟩

theorem ofTokens (h : Lockstep layout layout' R) {ts ts' : List Token} (hr : R (start ts) (start ts')) :
    (∃ p, Program.ofTokens layout ts = .ok p ∧ Program.ofTokens layout' ts' = .ok p) ∨
      ∃ c d x, R c d ∧ Program.ofTokens layout ts = .error (c.fail x).error ∧
        Program.ofTokens layout' ts' = .error (d.fail x).error :=
  (h.readFrom hr).2

end Lockstep

/-! ## The same tokens under two layouts -/

/-- Of two tokens that are no line breaks, the same one is deeper. -/
def SameOrder (ts : List Token) (layout layout' : Option Layout) : Prop :=
  ∀ i j, (before ts i).OnToken → (before ts j).OnToken →
    layout.map (fun l => decide ((before ts i).depth l < (before ts j).depth l)) =
      layout'.map (fun l => decide ((before ts i).depth l < (before ts j).depth l))

theorem SameOrder.lockstep {ts : List Token} (h : SameOrder ts layout layout') :
    Lockstep layout layout' (fun c d => c = d ∧ ∃ i, c = before ts i) where
  head hr := by rw [hr.1]
  next hr _ hp hp' := by
    obtain ⟨rfl, i, rfl⟩ := hr
    exact ⟨hp.unique hp', _, hp.eq_before⟩
  breaks hr := by
    obtain ⟨rfl, i, rfl⟩ := hr
    obtain ⟨breaks, -, hp⟩ := passes_skipBreaks (before ts i)
    exact ⟨rfl, _, hp.eq_before⟩
  deeper hr hr' hc hc' := by
    obtain ⟨rfl, i, rfl⟩ := hr
    obtain ⟨rfl, j, rfl⟩ := hr'
    exact h i j hc hc'

theorem Program.ofTokens_eq_of_sameOrder {ts : List Token} (h : SameOrder ts layout layout') :
    Program.ofTokens layout ts = Program.ofTokens layout' ts := by
  rcases h.lockstep.ofTokens ⟨rfl, 0, start_eq_before ts⟩ with ⟨p, hp, hp'⟩ | ⟨c, d, x, ⟨rfl, -⟩, he, he'⟩
  · rw [hp, hp']
  · rw [he, he']

end ScriptToC
