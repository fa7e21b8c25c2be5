/-
  ScriptToC.Proofs.Functions — the functions among the tokens of a program, and what a layout asks of
  each of them.

  A function is said by three indices: `head` is at its `def`, and its body lies between `start` and
  `stop`. The grammar alone decides where a body ends (`FunctionAt.unique`), and every `def` of a
  program heads a function (`Program.Derives.functionAt`). A layout rejects a program for one of its
  functions and for nothing else: `Program.ofTokens_eq_ok_iff_laidOut`.
-/

import ScriptToC.Proofs.ProgramReading

namespace ScriptToC

open Cursor

/-! ## Cursors by their index -/

/-- The cursor in front of the token with this index. -/
def Cursor.before (ts : List Token) (i : Nat) : Cursor := ⟨ts.drop i, i, (ts.take i).count .newline⟩

theorem Cursor.start_eq_before (ts : List Token) : Cursor.start ts = before ts 0 := by simp [start, before]

theorem Cursor.Passes.eq_before {ts us : List Token} {i : Nat} {d : Cursor} (h : (before ts i).Passes us d) :
    d = before ts d.index := by
  have hindex : d.index = i + us.length := h.index
  have hrest : ts.drop i = us ++ d.rest := h.rest
  have hline : d.line = (ts.take i).count .newline + us.count .newline := h.line
  rw [before, hindex, ← List.drop_drop, List.take_add, hrest, List.drop_left, List.take_left, List.count_append,
    ← hline, ← hindex]

theorem Cursor.next?_before {ts : List Token} {i : Nat} {t : Token} (h : ts[i]? = some t) :
    ∃ lt, (before ts i).next? = some ⟨t, before ts (i + 1), lt⟩ := by
  have hhead : (before ts i).rest.head? = some t := by rw [before, List.head?_drop, h]
  obtain ⟨d, lt, hnext⟩ := next?_of_head? hhead
  have hpasses : (before ts i).Passes [t] d := passes_of_next? hnext
  have hindex : d.index = i + 1 := hpasses.index
  obtain rfl : d = before ts (i + 1) := hindex ▸ hpasses.eq_before
  exact ⟨lt, hnext⟩

/-- A token between two cursors is one of those that are passed. -/
theorem Cursor.Passes.mem {ts us : List Token} {i k : Nat} {d : Cursor} {t : Token}
    (h : (before ts i).Passes us d) (hik : i ≤ k) (hkd : k < d.index) (ht : ts[k]? = some t) : t ∈ us := by
  have hindex : d.index = i + us.length := h.index
  have hrest : ts.drop i = us ++ d.rest := h.rest
  have hget : (us ++ d.rest)[k - i]? = some t := by
    rw [← hrest, List.getElem?_drop, ← ht]
    congr 1
    omega
  rw [List.getElem?_append_left (by omega)] at hget
  exact List.mem_of_getElem? hget

theorem Cursor.Passes.index_le_length {ts us : List Token} {i : Nat} {d : Cursor} (h : (before ts i).Passes us d)
    (hi : i ≤ ts.length) : d.index ≤ ts.length := by
  have hindex : d.index = i + us.length := h.index
  have hrest : (ts.drop i).length = (us ++ d.rest).length := congrArg List.length h.rest
  rw [List.length_drop, List.length_append] at hrest
  omega

theorem Cursor.Passes.le_length {ts us : List Token} {i : Nat} {d : Cursor} (h : (before ts i).Passes us d)
    (hne : us ≠ []) : d.index ≤ ts.length := by
  refine h.index_le_length ?_
  by_cases hi : i ≤ ts.length
  · exact hi
  · have hnil : us ++ d.rest = [] := h.rest.symm.trans (List.drop_eq_nil_of_le (by omega))
    exact absurd (List.append_eq_nil_iff.1 hnil).1 hne

theorem Cursor.Passes.index_le {c d : Cursor} {us : List Token} (h : c.Passes us d) : c.index ≤ d.index := by
  rw [h.index]
  omega

/-! ## Functions -/

/-- The `def` at `head` has a body that lies between `start` and `stop`. -/
inductive FunctionAt (ts : List Token) (head start stop : Nat) : Prop
  | intro {name : String} {params : List String} {breaks body : List Token} {s : Stmt} :
      (before ts head).Passes (.word .defWord :: signatureTokens name params ++ breaks) (before ts start) →
      (∀ t ∈ breaks, t = .newline) → (before ts start).Passes body (before ts stop) → Stmt.Derives body s →
      (before ts stop).EndsStmt → FunctionAt ts head start stop

theorem FunctionAt.lt {ts : List Token} {head start stop : Nat} (h : FunctionAt ts head start stop) :
    head < start ∧ start < stop ∧ stop ≤ ts.length := by
  cases h with
  | intro hsig _ hbody hs _ =>
    obtain ⟨t, us, rfl, -⟩ := hs.begins
    have hstart : start = head + _ := hsig.index
    have hstop : stop = start + _ := hbody.index
    have hlength := hbody.le_length (by simp)
    simp only [List.cons_append, List.length_cons] at hstart hstop
    exact ⟨by omega, by omega, hlength⟩

theorem FunctionAt.head {ts : List Token} {head start stop : Nat} (h : FunctionAt ts head start stop) :
    ts[head]? = some (.word .defWord) := by
  cases h with
  | intro hsig _ _ _ _ =>
    have hrest : ts.drop head = _ := hsig.rest
    have hget := congrArg (fun l => l[0]?) hrest
    simpa using hget

theorem FunctionAt.unique {ts : List Token} {head start stop start' stop' : Nat}
    (h : FunctionAt ts head start stop) (h' : FunctionAt ts head start' stop') : start = start' ∧ stop = stop' := by
  cases h with
  | intro hsig hbreaks hbody hs hend =>
    cases h' with
    | intro hsig' hbreaks' hbody' hs' hend' =>
      -- Both are read at `head`, and reading has one result.
      have hread := (Stmt.Derives.function hbreaks hs).read (by simpa using hsig.trans hbody) hend
      have hread' := (Stmt.Derives.function hbreaks' hs').read (by simpa using hsig'.trans hbody') hend'
      obtain ⟨hsame, hstop⟩ := hread.unique hread'
      cases hsame
      obtain ⟨colon, hsig, hskip⟩ := hsig.split
      obtain ⟨colon', hsig', hskip'⟩ := hsig'.split
      obtain rfl := hsig.unique hsig'
      have hstart := hskip.skipBreaks hbreaks (hs.not_break hbody)
      have hstart' := hskip'.skipBreaks hbreaks' (hs'.not_break hbody')
      exact ⟨congrArg Cursor.index (hstart.symm.trans hstart'), congrArg Cursor.index hstop⟩

/-! ## What a layout asks -/

/-- Each `def` from one index to another heads a function that the layout allows. -/
def AllLaidOut (layout : Option Layout) (ts : List Token) (i j : Nat) : Prop :=
  ∀ head, i ≤ head → head < j → ts[head]? = some (.word .defWord) →
    ∃ start stop, FunctionAt ts head start stop ∧ LaidOut layout (before ts head) (before ts start) (before ts stop)

theorem AllLaidOut.append {layout : Option Layout} {ts : List Token} {i j k : Nat} (h : AllLaidOut layout ts i j)
    (h' : AllLaidOut layout ts j k) : AllLaidOut layout ts i k := by
  intro head hi hk hdef
  by_cases hj : head < j
  · exact h head hi hj hdef
  · exact h' head (by omega) hk hdef

theorem AllLaidOut.mono {layout : Option Layout} {ts : List Token} {i i' j j' : Nat}
    (h : AllLaidOut layout ts i j) (hi : i ≤ i') (hj : j' ≤ j) : AllLaidOut layout ts i' j' :=
  fun head hi' hj' hdef => h head (by omega) (by omega) hdef

/-- Tokens without a function can be left out. -/
theorem AllLaidOut.skip_iff {layout : Option Layout} {ts : List Token} {i j k : Nat} (h : AllLaidOut layout ts i j)
    (hij : i ≤ j) : AllLaidOut layout ts j k ↔ AllLaidOut layout ts i k :=
  ⟨h.append, fun hall => hall.mono hij (Nat.le_refl k)⟩

theorem Cursor.Passes.allLaidOut {layout : Option Layout} {ts us : List Token} {i : Nat} {d : Cursor}
    (h : (before ts i).Passes us d) (hnone : .word .defWord ∉ us) : AllLaidOut layout ts i d.index :=
  fun _ hi hd hdef => absurd (h.mem hi hd hdef) hnone

/-- Only the first token of a head is a `def`. -/
theorem Cursor.Passes.allLaidOut_head {layout : Option Layout} {ts breaks : List Token} {i : Nat} {d : Cursor}
    {name : String} {params : List String} (hbreaks : ∀ t ∈ breaks, t = .newline)
    (h : (before ts i).Passes (.word .defWord :: signatureTokens name params ++ breaks) d) :
    AllLaidOut layout ts (i + 1) d.index := by
  obtain ⟨c, hdef, h⟩ := h.uncons
  have hc : c.index = i + 1 := hdef.index
  rw [hdef.eq_before, hc] at h
  refine h.allLaidOut (fun hmem => ?_)
  rcases List.mem_append.1 hmem with hmem | hmem
  · simpa using signatureTokens_mem hmem
  · simpa using hbreaks _ hmem

theorem Expr.Derives.no_def {p : Expr.Phrase} {us : List Token} {e : Expr} (h : Expr.Derives p us e) :
    .word .defWord ∉ us := by
  intro hmem
  have := h.inExpr _ hmem
  simp [Token.inExpr] at this

theorem Stmt.Derives.read_iff {layout : Option Layout} {us : List Token} {s : Stmt} (h : Stmt.Derives us s)
    {ts : List Token} {i : Nat} {d : Cursor} (hp : (before ts i).Passes us d) (hd : d.EndsStmt) :
    (Stmt.read layout (before ts i)).Gives s d ↔ AllLaidOut layout ts i d.index := by
  induction h generalizing i with
  | assign he => exact iff_of_true (Stmt.read_assign he hp hd) (hp.allLaidOut (by simp [he.no_def]))
  | ret he => exact iff_of_true (Stmt.read_ret he hp hd) (hp.allLaidOut (by simp [he.no_def]))
  | expr he => exact iff_of_true (Stmt.read_expr he hp hd) (hp.allLaidOut he.no_def)
  | @function name params breaks body s hbreaks hs ih =>
    rw [← List.cons_append] at hp
    obtain ⟨colon, hsig, hp⟩ := hp.split
    obtain ⟨start, hskip, hbody⟩ := hp.split
    have hstart := hskip.skipBreaks hbreaks (hs.not_break hbody)
    have hhead := hsig.trans hskip
    rw [hhead.eq_before] at hbody hhead
    rw [Stmt.read_function_iff hsig, hstart, (hsig.trans hskip).eq_before]
    have hfun : FunctionAt ts i start.index d.index := by
      refine .intro hhead hbreaks ?_ hs ?_
      · rw [← hbody.eq_before]; exact hbody
      · rw [← hbody.eq_before]; exact hd
    have hlt := hfun.lt
    -- Its own `def` comes first, no other stands in its head, and the others are those of the body.
    constructor
    · intro hgives
      rcases hgives with ⟨_, hsame, hread, hlaid⟩
      cases hsame
      have hinside := (hhead.allLaidOut_head hbreaks).append ((ih hbody).1 hread)
      intro head hi hj hdef
      by_cases hhere : head = i
      · subst hhere
        exact ⟨start.index, d.index, hfun, by rw [← hbody.eq_before]; exact hlaid⟩
      · exact hinside head (by omega) hj hdef
    · intro hall
      obtain ⟨start', stop', hfun', hlaid⟩ := hall i (Nat.le_refl i) (by omega) hfun.head
      obtain ⟨rfl, rfl⟩ := hfun.unique hfun'
      rw [← hbody.eq_before] at hlaid
      exact ⟨s, rfl, (ih hbody).2 (hall.mono (by omega) (Nat.le_refl _)), hlaid⟩

/-! ## Programs -/

theorem not_def_of_separators {us : List Token} (h : ∀ t ∈ us, t.isSeparator = true) : .word .defWord ∉ us :=
  fun hmem => by simpa [Token.isSeparator] using h _ hmem

theorem not_def_of_breaks {breaks : List Token} (h : ∀ t ∈ breaks, t = .newline) : .word .defWord ∉ breaks :=
  fun hmem => by simpa using h _ hmem

/-- A statement that is read and that a program goes on behind is one that the grammar ends there. -/
theorem Stmt.gives_none {layout : Option Layout} {c d last : Cursor} {s : Stmt} {ss : Program}
    (hread : (Stmt.read layout c).Gives s d) (hrest : Program.readRest layout d = .ok (ss, last)) :
    (Stmt.read none c).Gives s d := by
  rcases hread with ⟨_, hread⟩
  obtain ⟨us, hp, hs⟩ := Stmt.derives_of_read hread
  obtain ⟨vs, hp', hlast, hcontinues⟩ := Program.continues_of_readRest hrest
  exact hs.read hp (hcontinues.endsStmt hp' hlast)

/-- A statement and what follows it: `hrest` is about the tokens behind the statement. -/
theorem Stmt.Derives.read_then_iff {layout : Option Layout} {us vs : List Token} {s : Stmt} {ss : Program}
    (hs : Stmt.Derives us s) (hcontinues : Program.Continues vs ss) {ts : List Token} {i k : Nat} {last : Cursor}
    (hp : (before ts i).Passes us (before ts k)) (hp' : (before ts k).Passes vs last) (hlast : last.rest = [])
    (hrest : Program.readRest layout (before ts k) = .ok (ss, last) ↔ AllLaidOut layout ts k last.index) :
    (∃ s' rest c, s :: ss = s' :: rest ∧ (Stmt.read layout (before ts i)).Gives s' c ∧
        Program.readRest layout c = .ok (rest, last)) ↔ AllLaidOut layout ts i last.index := by
  have hend := hcontinues.endsStmt hp' hlast
  constructor
  · intro hreads
    rcases hreads with ⟨_, _, c, hsame, hread, hread'⟩
    cases hsame
    obtain ⟨-, rfl⟩ := (Stmt.gives_none hread hread').unique (hs.read hp hend)
    exact ((hs.read_iff hp hend).1 hread).append (hrest.1 hread')
  · intro hall
    have hread := (hs.read_iff hp hend).2 (hall.mono (Nat.le_refl i) hp'.index_le)
    exact ⟨s, ss, _, rfl, hread, hrest.2 (hall.mono hp.index_le (Nat.le_refl _))⟩

theorem Program.Continues.read_iff {layout : Option Layout} {us : List Token} {ss : Program}
    (h : Program.Continues us ss) {ts : List Token} {i : Nat} {last : Cursor} (hp : (before ts i).Passes us last)
    (hlast : last.rest = []) :
    Program.readRest layout (before ts i) = .ok (ss, last) ↔ AllLaidOut layout ts i last.index := by
  induction h generalizing i with
  | done hbreaks =>
    exact iff_of_true (Program.readRest_done hbreaks hp hlast) (hp.allLaidOut (not_def_of_breaks hbreaks))
  | next hne hseps hs hrest ih =>
    obtain ⟨next, hp₁, hp⟩ := hp.split
    obtain ⟨c₁, hp₂, hp₃⟩ := hp.split
    obtain ⟨t, us, hus, ht⟩ := hs.begins
    rw [Program.readRest_iff hne hseps hp₁ (by rw [hp₂.rest, hus]; rfl) ht]
    obtain ⟨j, rfl⟩ : ∃ j, next = before ts j := ⟨_, hp₁.eq_before⟩
    obtain ⟨k, rfl⟩ : ∃ k, c₁ = before ts k := ⟨_, hp₂.eq_before⟩
    rw [hs.read_then_iff hrest hp₂ hp₃ hlast (ih hp₃)]
    exact (hp₁.allLaidOut (not_def_of_separators hseps)).skip_iff hp₁.index_le

theorem Program.Derives.read_iff {layout : Option Layout} {us : List Token} {p : Program}
    (h : Program.Derives us p) {ts : List Token} {i : Nat} {last : Cursor} (hp : (before ts i).Passes us last)
    (hlast : last.rest = []) :
    Program.read layout (before ts i) = .ok (p, last) ↔ AllLaidOut layout ts i last.index := by
  cases h with
  | start hbreaks hs hrest =>
    obtain ⟨next, hp₁, hp⟩ := hp.split
    obtain ⟨c₁, hp₂, hp₃⟩ := hp.split
    rw [Program.read_iff, hp₁.skipBreaks hbreaks (hs.not_break hp₂)]
    obtain ⟨j, rfl⟩ : ∃ j, next = before ts j := ⟨_, hp₁.eq_before⟩
    obtain ⟨k, rfl⟩ : ∃ k, c₁ = before ts k := ⟨_, hp₂.eq_before⟩
    rw [hs.read_then_iff hrest hp₂ hp₃ hlast (hrest.read_iff hp₃ hlast)]
    exact (hp₁.allLaidOut (not_def_of_breaks hbreaks)).skip_iff hp₁.index_le

/-- The programs that are read with a layout: those of the grammar whose functions it allows. -/
theorem Program.ofTokens_eq_ok_iff_laidOut {layout : Option Layout} {ts : List Token} {p : Program} :
    Program.ofTokens layout ts = .ok p ↔
      Program.Derives ts p ∧ ∀ head, ts[head]? = some (.word .defWord) → ∃ start stop, FunctionAt ts head start stop ∧
        LaidOut layout (before ts head) (before ts start) (before ts stop) := by
  constructor
  · intro h
    obtain ⟨last, hread⟩ := Program.ofTokens_eq_ok.1 h
    obtain ⟨us, hus, hlast, hd⟩ := Program.derives_of_read hread
    obtain rfl : ts = us := by simpa [hlast, start] using hus.rest
    have hindex : last.index = ts.length := by simpa [start] using hus.index
    rw [start_eq_before] at hread hus
    refine ⟨hd, fun head hdef => (hd.read_iff hus hlast).1 hread head (Nat.zero_le head) ?_ hdef⟩
    rw [hindex]
    exact (List.getElem?_eq_some_iff.1 hdef).1
  · intro hlaid
    rcases hlaid with ⟨hd, hall⟩
    have hp := passes_start ts []
    rw [List.append_nil, start_eq_before] at hp
    refine Program.ofTokens_eq_ok.2 ⟨⟨[], ts.length, ts.count .newline⟩, ?_⟩
    rw [start_eq_before]
    exact (hd.read_iff hp rfl).2 (fun head _ _ hdef => hall head hdef)

/-- Every `def` of a program heads a function. -/
theorem Program.Derives.functionAt {ts : List Token} {p : Program} (h : Program.Derives ts p) {head : Nat}
    (hdef : ts[head]? = some (.word .defWord)) : ∃ start stop, FunctionAt ts head start stop := by
  obtain ⟨start, stop, hfun, -⟩ := (Program.ofTokens_eq_ok_iff_laidOut.1 h.ofTokens).2 head hdef
  exact ⟨start, stop, hfun⟩

end ScriptToC
