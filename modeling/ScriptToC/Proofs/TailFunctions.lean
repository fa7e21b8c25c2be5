/-
  ScriptToC.Proofs.TailFunctions — the functions with which a program ends.

  The last statement of a program can be a function, the body of that one too, and so on: these are the
  program's tail functions (`Program.TailFunction`). A body is one statement, so all functions in a statement
  end where it ends (`Stmt.Derives.tail`), and the tail functions are those with nothing but line breaks
  behind their body: `Program.Derives.tailFunction_iff`.
-/

import ScriptToC.Proofs.Functions

namespace ScriptToC

open Cursor

/-- The statement begins at `i`, and only line breaks follow it. -/
def StandsLast (ts : List Token) (i : Nat) (s : Stmt) : Prop :=
  ∃ us stop, (before ts i).Passes us (before ts stop) ∧ Stmt.Derives us s ∧ ∀ t ∈ ts.drop stop, t = .newline

/-- A statement that begins at `i` is a function with its `def` at `head` and its body from `start` on, or
    it is a function and its body is such a statement. -/
inductive Stmt.TailFunction (ts : List Token) : Nat → Stmt → Nat → Nat → Prop
  | whole {i start stop : Nat} {name : String} {params : List String} {body : List Stmt} :
      FunctionAt ts i start stop → TailFunction ts i (.function name params body) i start
  | body {i mid stop head start : Nat} {name : String} {params : List String} {s : Stmt} :
      FunctionAt ts i mid stop → TailFunction ts mid s head start →
      TailFunction ts i (.function name params [s]) head start

/-- The last statement of a program is such a statement. -/
def Program.TailFunction (ts : List Token) (p : Program) (head start : Nat) : Prop :=
  ∃ i s, p.getLast? = some s ∧ StandsLast ts i s ∧ s.TailFunction ts i head start

variable {ts us vs breaks : List Token} {i j k head start stop : Nat} {s : Stmt} {ss p : Program}

/-! ## A statement that stands last -/

theorem mem_drop_of_getElem? {t : Token} (h : ts[i]? = some t) (hk : k ≤ i) : t ∈ ts.drop k := by
  have hget : (ts.drop k)[i - k]? = some t := by
    rw [List.getElem?_drop, ← h]
    congr 1
    omega
  exact List.mem_of_getElem? hget

theorem endsStmt_of_breaks (h : ∀ t ∈ ts.drop stop, t = .newline) : (before ts stop).EndsStmt := by
  intro t ht
  rw [h t (List.mem_of_mem_head? ht)]
  rfl

/-- The body of a function that stands last stands last. -/
theorem StandsLast.function {name : String} {params : List String} {body : List Stmt}
    (h : StandsLast ts i (.function name params body)) :
    ∃ start stop s, body = [s] ∧ FunctionAt ts i start stop ∧ StandsLast ts start s ∧
      ∀ t ∈ ts.drop stop, t = .newline := by
  rcases h with ⟨us, stop, hp, hs, hbreaks⟩
  cases hs with
  | @function _ _ breaks us s hbreaks' hs =>
    rw [← List.cons_append, ← List.append_assoc] at hp
    obtain ⟨c, hhead, hbody⟩ := hp.split
    obtain ⟨start, rfl⟩ : ∃ start, c = before ts start := ⟨_, hhead.eq_before⟩
    have hfun : FunctionAt ts i start stop := .intro hhead hbreaks' hbody hs (endsStmt_of_breaks hbreaks)
    exact ⟨start, stop, s, rfl, hfun, ⟨us, stop, hbody, hs, hbreaks⟩, hbreaks⟩

/-- Only line breaks follow the body of a tail function. -/
theorem Stmt.TailFunction.functionAt (h : s.TailFunction ts i head start) (hlast : StandsLast ts i s) :
    ∃ stop, FunctionAt ts head start stop ∧ ∀ t ∈ ts.drop stop, t = .newline := by
  induction h with
  | whole hfun =>
    obtain ⟨start, stop, _, -, hfun', -, hbreaks⟩ := hlast.function
    obtain ⟨rfl, rfl⟩ := hfun.unique hfun'
    exact ⟨_, hfun, hbreaks⟩
  | body hfun _ ih =>
    obtain ⟨start, stop, s, hbody, hfun', hlast, -⟩ := hlast.function
    obtain ⟨rfl, rfl⟩ := hfun.unique hfun'
    cases hbody
    exact ih hlast

/-! ## The functions in a statement -/

/-- The head of a function has no other `def` than its first token. -/
theorem Cursor.Passes.start_le {name : String} {params : List String} (hbreaks : ∀ t ∈ breaks, t = .newline)
    (h : (before ts i).Passes (.word .defWord :: signatureTokens name params ++ breaks) (before ts start))
    (hdef : ts[head]? = some (.word .defWord)) (hi : i < head) : start ≤ head := by
  obtain ⟨c, hfirst, hrest⟩ := h.uncons
  have hc : c.index = i + 1 := hfirst.index
  rw [hfirst.eq_before, hc] at hrest
  by_cases hlt : head < start
  · have hmem := hrest.mem (show i + 1 ≤ head by omega) hlt hdef
    rcases List.mem_append.1 hmem with hmem | hmem
    · simpa using signatureTokens_mem hmem
    · simpa using hbreaks _ hmem
  · omega

/-- A function in a statement ends where it does, and is one of those that end it. -/
theorem Stmt.Derives.tail (h : Stmt.Derives us s) (hp : (before ts i).Passes us (before ts k))
    (hend : (before ts k).EndsStmt) (hfun : FunctionAt ts head start stop) (hi : i ≤ head) (hk : head < k) :
    stop = k ∧ s.TailFunction ts i head start := by
  induction h generalizing i with
  | assign he => exact absurd (hp.mem hi hk hfun.head) (by simp [he.no_def])
  | ret he => exact absurd (hp.mem hi hk hfun.head) (by simp [he.no_def])
  | expr he => exact absurd (hp.mem hi hk hfun.head) he.no_def
  | function hbreaks hs ih =>
    rw [← List.cons_append, ← List.append_assoc] at hp
    obtain ⟨c, hhead, hbody⟩ := hp.split
    obtain ⟨mid, rfl⟩ : ∃ mid, c = before ts mid := ⟨_, hhead.eq_before⟩
    have hwhole : FunctionAt ts i mid k := .intro hhead hbreaks hbody hs hend
    by_cases hhere : head = i
    · subst hhere
      obtain ⟨rfl, rfl⟩ := hfun.unique hwhole
      exact ⟨rfl, .whole hwhole⟩
    · have hle := hhead.start_le hbreaks hfun.head (by omega)
      obtain ⟨rfl, htail⟩ := ih hbody hle
      exact ⟨rfl, .body hwhole htail⟩

/-! ## The functions in a program -/

/-- The last of the statements stands last, and the functions from `k` on end in front of it or end it. -/
def EndsProgram (ts : List Token) (k : Nat) (ss : Program) : Prop :=
  ∃ i s, k ≤ i ∧ ss.getLast? = some s ∧ StandsLast ts i s ∧
    ∀ head start stop, FunctionAt ts head start stop → k ≤ head → stop ≤ i ∨ s.TailFunction ts i head start

/-- Tokens in front that hold no `def` change nothing. -/
theorem EndsProgram.behind (h : EndsProgram ts j ss) (hp : (before ts i).Passes us (before ts j))
    (hnone : .word .defWord ∉ us) : EndsProgram ts i ss := by
  rcases h with ⟨m, s, hjm, hs, hlast, hall⟩
  have hij : i ≤ j := hp.index_le
  refine ⟨m, s, by omega, hs, hlast, fun head start stop hfun hi => ?_⟩
  by_cases hj : head < j
  · exact absurd (hp.mem hi hj hfun.head) hnone
  · exact hall head start stop hfun (by omega)

/-- A statement and what follows it: `hrest` is about the tokens behind the statement. -/
theorem Stmt.Derives.endsProgram (hs : Stmt.Derives us s) (hcontinues : Program.Continues vs ss) {last : Cursor}
    (hp : (before ts i).Passes us (before ts k)) (hp' : (before ts k).Passes vs last) (hlast : last.rest = [])
    (hrest : ss ≠ [] → EndsProgram ts k ss) : EndsProgram ts i (s :: ss) := by
  have hend := hcontinues.endsStmt hp' hlast
  have hik : i ≤ k := hp.index_le
  have hdrop : ts.drop k = vs := by
    rw [← List.append_nil vs, ← hlast]
    exact hp'.rest
  cases hcontinues with
  | done hbreaks =>
    refine ⟨i, s, Nat.le_refl i, rfl, ⟨us, k, hp, hs, hdrop ▸ hbreaks⟩, fun head start stop hfun hi => .inr ?_⟩
    by_cases hk : head < k
    · exact (hs.tail hp hend hfun hi hk).2
    · have hmem := mem_drop_of_getElem? hfun.head (show k ≤ head by omega)
      exact absurd (hdrop ▸ hmem) (not_def_of_breaks hbreaks)
  | next hne hseps hs' hrest' =>
    obtain ⟨m, s', hkm, hlast', hstands, hall⟩ := hrest (by simp)
    refine ⟨m, s', by omega, by simpa using hlast', hstands, fun head start stop hfun hi => ?_⟩
    by_cases hk : head < k
    · obtain ⟨rfl, -⟩ := hs.tail hp hend hfun hi hk
      exact .inl hkm
    · exact hall head start stop hfun (by omega)

theorem Program.Continues.endsProgram (h : Program.Continues us ss) (hne : ss ≠ []) {last : Cursor}
    (hp : (before ts i).Passes us last) (hlast : last.rest = []) : EndsProgram ts i ss := by
  induction h generalizing i with
  | done _ => exact absurd rfl hne
  | next _ hseps hs hrest ih =>
    obtain ⟨c, hp₁, hp⟩ := hp.split
    obtain ⟨d, hp₂, hp₃⟩ := hp.split
    obtain ⟨j, rfl⟩ : ∃ j, c = before ts j := ⟨_, hp₁.eq_before⟩
    obtain ⟨k, rfl⟩ : ∃ k, d = before ts k := ⟨_, hp₂.eq_before⟩
    have hends := hs.endsProgram hrest hp₂ hp₃ hlast (fun hne => ih hne hp₃)
    exact hends.behind hp₁ (not_def_of_separators hseps)

theorem Program.Derives.endsProgram (h : Program.Derives ts p) : EndsProgram ts 0 p := by
  have hp := passes_start ts []
  rw [List.append_nil, start_eq_before] at hp
  cases h with
  | start hbreaks hs hrest =>
    obtain ⟨c, hp₁, hp⟩ := hp.split
    obtain ⟨d, hp₂, hp₃⟩ := hp.split
    obtain ⟨j, rfl⟩ : ∃ j, c = before _ j := ⟨_, hp₁.eq_before⟩
    obtain ⟨k, rfl⟩ : ∃ k, d = before _ k := ⟨_, hp₂.eq_before⟩
    have hends := hs.endsProgram hrest hp₂ hp₃ rfl (fun hne => hrest.endsProgram hne hp₃ rfl)
    exact hends.behind hp₁ (not_def_of_breaks hbreaks)

/-- The tail functions are those with only line breaks behind their body. -/
theorem Program.Derives.tailFunction_iff (h : Program.Derives ts p) (hfun : FunctionAt ts head start stop) :
    p.TailFunction ts head start ↔ ∀ t ∈ ts.drop stop, t = .newline := by
  obtain ⟨i, s, -, hs, hlast, hall⟩ := h.endsProgram
  constructor
  · rintro ⟨i', s', hs', hlast', htail⟩
    obtain ⟨stop', hfun', hbreaks⟩ := htail.functionAt hlast'
    obtain ⟨-, rfl⟩ := hfun.unique hfun'
    exact hbreaks
  · intro hbreaks
    refine ⟨i, s, hs, hlast, ?_⟩
    rcases hall head start stop hfun (Nat.zero_le head) with hle | htail
    · -- The last statement is behind the function, and it is not a line break.
      obtain ⟨us, k, hp, hs, -⟩ := hlast
      obtain ⟨t, us, rfl, ht⟩ := hs.begins
      have hget : ts[i]? = some t := by
        rw [← List.head?_drop]
        exact hp.head?
      rw [hbreaks t (mem_drop_of_getElem? hget hle)] at ht
      cases ht
    · exact htail

end ScriptToC
