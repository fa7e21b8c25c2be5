/-
  ScriptToC.Proofs.Histories — what sets of declared names answer while they are added to, asked and
  copied side by side.

  An answer does not hang on all the steps before it. A name is known to a set if it was there from the
  start, or was declared on the set itself, or on one that it comes from and before the copy was made
  (`DeclaredOn`). This is the invariant of a run (`Tells`): each step keeps it, whatever set it is about,
  so every answer is told by the steps in front of it. Main statement: `answers_tell_the_history`.
-/

import Mathlib.Data.List.Induction
import ScriptToC.Declared.History
import ScriptToC.Event

namespace ScriptToC.Declared

/-- The set that a step is about. -/
def Step.set : Step → Nat
  | .declare i _ | .ask i _ | .copy i => i

def Step.isCopy : Step → Bool
  | .copy _ => true
  | .declare .. | .ask .. => false

namespace History

/-- How many sets there are behind the steps. -/
def setsBehind (steps : List Step) : Nat := steps.countP Step.isCopy + 1

/-- Every step is about a set that has come to be before it. -/
def EachExists (steps : List Step) : Prop :=
  ∀ before s after, steps = before ++ s :: after → s.set < setsBehind before

/-- The name was declared on the set, or on the one it was copied from and before it was, and so on. -/
inductive DeclaredOn : List Step → Nat → String → Prop
  | here (before : List Step) (i : Nat) (x : String) (after : List Step) :
      DeclaredOn (before ++ .declare i x :: after) i x
  | inherited {before : List Step} {i : Nat} {x : String} (h : DeclaredOn before i x) (after : List Step) :
      DeclaredOn (before ++ .copy i :: after) (setsBehind before) x

/-- What a step is to be answered, where `before` are the steps in front of it and `first` is the set at the
    start. -/
inductive Answered (first : Declared) (before : List Step) : Step → Answer → Prop
  | declare {i : Nat} {x : String} {new : Bool} : (new = true ↔ x ∉ first.names ∧ ¬DeclaredOn before i x) →
      Answered first before (.declare i x) (.truth new)
  | ask {i : Nat} {x : String} {known : Bool} : (known = false ↔ x ∉ first.names ∧ ¬DeclaredOn before i x) →
      Answered first before (.ask i x) (.truth known)
  | copy (i : Nat) : Answered first before (.copy i) (.set (setsBehind before))

/-- What a log has of the names that were new. -/
def records (h : History) : List (LogLevel × String) := h.fresh.map fun x => (Event.declaring x).record

/-- A record for each declaration that was answered to be new. -/
def newRecords (steps : List Step) (answers : List Answer) : List (LogLevel × String) :=
  (steps.zip answers).filterMap fun
    | (.declare _ x, .truth true) => some (.trace, "declaring '" ++ x ++ "'")
    | _ => none

variable {first : Declared} {h h' : History} {steps before after : List Step} {s : Step} {a : Answer}
  {answers : List Answer} {i j : Nat} {x y : String}

/-! ## Steps and sets, one more -/

@[simp] theorem setsBehind_concat (steps : List Step) (s : Step) :
    setsBehind (steps ++ [s]) = setsBehind steps + if s.isCopy then 1 else 0 := by
  simp only [setsBehind, List.countP_append, List.countP_singleton]
  omega

theorem setsBehind_le_append (before after : List Step) : setsBehind before ≤ setsBehind (before ++ after) := by
  simp only [setsBehind, List.countP_append]
  omega

theorem eq_concat_cases {α : Type} {xs before after : List α} {x a : α} (h : xs ++ [x] = before ++ a :: after) :
    (before = xs ∧ a = x ∧ after = []) ∨ ∃ rest, after = rest ++ [x] ∧ xs = before ++ a :: rest := by
  rcases List.eq_nil_or_concat after with rfl | ⟨rest, b, rfl⟩
  · obtain ⟨rfl, hlast⟩ := List.append_inj' h rfl
    exact .inl ⟨rfl, (List.singleton_inj.1 hlast).symm, rfl⟩
  · rw [List.concat_eq_append, ← List.cons_append, ← List.append_assoc] at h
    obtain ⟨rfl, hlast⟩ := List.append_inj' h rfl
    obtain rfl := List.singleton_inj.1 hlast
    exact .inr ⟨rest, List.concat_eq_append, rfl⟩

theorem eachExists_concat : EachExists (steps ++ [s]) ↔ EachExists steps ∧ s.set < setsBehind steps := by
  constructor
  · intro hall
    refine ⟨fun before t after heq => ?_, hall steps s [] rfl⟩
    exact hall before t (after ++ [s]) (by rw [heq]; simp)
  · rintro ⟨hall, hlast⟩ before t after heq
    rcases eq_concat_cases heq with ⟨rfl, rfl, -⟩ | ⟨rest, -, rfl⟩
    · exact hlast
    · exact hall before t rest rfl

theorem eachExists_append : EachExists (before ++ after) ↔
    EachExists before ∧ ∀ mid s rest, after = mid ++ s :: rest → s.set < setsBehind (before ++ mid) := by
  constructor
  · intro hall
    refine ⟨fun b s rest heq => ?_, fun mid s rest heq => ?_⟩
    · exact hall b s (rest ++ after) (by rw [heq]; simp)
    · exact hall (before ++ mid) s rest (by rw [heq]; simp)
  · rintro ⟨hbefore, hafter⟩
    induction after using List.reverseRecOn with
    | nil => rwa [List.append_nil]
    | append_singleton after s ih =>
      rw [← List.append_assoc, eachExists_concat]
      refine ⟨ih (fun mid t rest heq => ?_), hafter after s [] rfl⟩
      exact hafter mid t (rest ++ [s]) (by rw [heq]; simp)

theorem DeclaredOn.append (hd : DeclaredOn steps i x) (after : List Step) : DeclaredOn (steps ++ after) i x := by
  cases hd with
  | here before i x rest =>
    rw [List.append_assoc, List.cons_append]
    exact .here before i x (rest ++ after)
  | inherited hd rest =>
    rw [List.append_assoc, List.cons_append]
    exact .inherited hd (rest ++ after)

/-- What one more step adds: a name to the set it is about, or all names of a set to its copy. -/
theorem declaredOn_concat :
    DeclaredOn (steps ++ [s]) i x ↔ DeclaredOn steps i x ∨ s = .declare i x ∨
      ∃ j, s = .copy j ∧ i = setsBehind steps ∧ DeclaredOn steps j x := by
  constructor
  · intro hd
    generalize hsteps : steps ++ [s] = all at hd
    cases hd with
    | here before i x after =>
      rcases eq_concat_cases hsteps with ⟨rfl, rfl, -⟩ | ⟨rest, -, rfl⟩
      · exact .inr (.inl rfl)
      · exact .inl (.here before i x rest)
    | @inherited before j x hd after =>
      rcases eq_concat_cases hsteps with ⟨rfl, rfl, -⟩ | ⟨rest, -, rfl⟩
      · exact .inr (.inr ⟨j, rfl, rfl, hd⟩)
      · exact .inl (.inherited hd rest)
  · intro hcases
    rcases hcases with hd | rfl | ⟨j, rfl, rfl, hd⟩
    · exact hd.append [s]
    · exact .here steps i x []
    · exact .inherited hd []

/-! ## One step -/

theorem add_of_has {d : Declared} (hx : d.has x = true) : d.add x = d := by simp [add, hx]

/-- A declaration changes the set that it is about and no other, and tells of the name if it is new. -/
theorem step_declare : h.step (.declare i x) = some (a, h') ↔ ∃ d, h.sets[i]? = some d ∧ .truth (!d.has x) = a ∧
    ⟨h.sets.set i (d.add x), h.fresh ++ if d.has x then [] else [x]⟩ = h' := by
  cases hget : h.sets[i]? with
  | none => simp [step, hget]
  | some d =>
    cases hx : d.has x with
    | true =>
      have hset : h.sets.set i (d.add x) = h.sets := by
        rw [add_of_has hx]
        obtain ⟨hi, rfl⟩ := List.getElem?_eq_some_iff.1 hget
        exact List.set_getElem_self hi
      simp [step, hget, hx, hset]
    | false => simp [step, hget, hx]

theorem step_ask : h.step (.ask i x) = some (a, h') ↔ ∃ d, h.sets[i]? = some d ∧ .truth (d.has x) = a ∧ h = h' := by
  cases hget : h.sets[i]? with
  | none => simp [step, hget]
  | some d => simp [step, hget]

theorem step_copy : h.step (.copy i) = some (a, h') ↔ ∃ d, h.sets[i]? = some d ∧ .set h.sets.length = a ∧
    ⟨h.sets ++ [d], h.fresh⟩ = h' := by
  cases hget : h.sets[i]? with
  | none => simp [step, hget]
  | some d => simp [step, hget]

/-- There is an answer about every set that exists. -/
theorem step_isSome_iff : (∃ a h', h.step s = some (a, h')) ↔ s.set < h.sets.length := by
  have hget : s.set < h.sets.length ↔ ∃ d, h.sets[s.set]? = some d := by
    rw [← Option.isSome_iff_exists, isSome_getElem?]
  rw [hget]
  cases s with
  | declare i x =>
    simp only [step_declare]
    exact ⟨fun ⟨_, _, d, hd, _⟩ => ⟨d, hd⟩, fun ⟨d, hd⟩ => ⟨_, _, d, hd, rfl, rfl⟩⟩
  | ask i x =>
    simp only [step_ask]
    exact ⟨fun ⟨_, _, d, hd, _⟩ => ⟨d, hd⟩, fun ⟨d, hd⟩ => ⟨_, _, d, hd, rfl, rfl⟩⟩
  | copy i =>
    simp only [step_copy]
    exact ⟨fun ⟨_, _, d, hd, _⟩ => ⟨d, hd⟩, fun ⟨d, hd⟩ => ⟨_, _, d, hd, rfl, rfl⟩⟩

/-! ## Runs -/

theorem run_nil_eq_some {all : List Answer} : h.run [] = some (all, h') ↔ all = [] ∧ h' = h := by
  simp [run, eq_comm]

theorem run_cons_eq_some {all : List Answer} : h.run (s :: steps) = some (all, h') ↔
    ∃ a h₁ answers, h.step s = some (a, h₁) ∧ h₁.run steps = some (answers, h') ∧ all = a :: answers := by
  rw [run]
  cases h.step s with
  | none => simp
  | some r =>
    rcases r with ⟨a, h₁⟩
    show ((h₁.run steps).bind fun r => some (a :: r.1, r.2)) = some (all, h') ↔ _
    rw [Option.bind_eq_some_iff]
    constructor
    · rintro ⟨⟨as, h₂⟩, hrest, heq⟩
      cases heq
      exact ⟨a, h₁, as, rfl, hrest, rfl⟩
    · rintro ⟨_, _, as, heq, hrest, rfl⟩
      cases heq
      exact ⟨(as, h'), hrest, rfl⟩

/-- A run can be made in two parts. -/
theorem run_append_eq_some {ss ts : List Step} {all : List Answer} : h.run (ss ++ ts) = some (all, h') ↔
    ∃ as h₁ bs, h.run ss = some (as, h₁) ∧ h₁.run ts = some (bs, h') ∧ all = as ++ bs := by
  induction ss generalizing h all with
  | nil =>
    simp only [List.nil_append, run_nil_eq_some]
    constructor
    · intro hrun
      exact ⟨[], h, all, ⟨rfl, rfl⟩, hrun, rfl⟩
    · rintro ⟨_, _, bs, ⟨rfl, rfl⟩, hrun, rfl⟩
      exact hrun
  | cons s ss ih =>
    rw [List.cons_append, run_cons_eq_some]
    simp only [ih, run_cons_eq_some]
    constructor
    · rintro ⟨a, h₁, _, hs, ⟨as, h₂, bs, has, hbs, rfl⟩, rfl⟩
      exact ⟨a :: as, h₂, bs, ⟨a, h₁, as, hs, has, rfl⟩, hbs, rfl⟩
    · rintro ⟨_, h₂, bs, ⟨a, h₁, as, hs, has, rfl⟩, hbs, rfl⟩
      exact ⟨a, h₁, as ++ bs, hs, ⟨as, h₂, bs, has, hbs, rfl⟩, rfl⟩

theorem run_concat_eq_some {all : List Answer} : h.run (steps ++ [s]) = some (all, h') ↔
    ∃ answers h₁ a, h.run steps = some (answers, h₁) ∧ h₁.step s = some (a, h') ∧ all = answers ++ [a] := by
  rw [run_append_eq_some]
  simp only [run_cons_eq_some, run_nil_eq_some]
  constructor
  · rintro ⟨answers, h₁, _, hrun, ⟨a, _, _, hs, ⟨rfl, rfl⟩, rfl⟩, rfl⟩
    exact ⟨answers, h₁, a, hrun, hs, rfl⟩
  · rintro ⟨answers, h₁, a, hrun, hs, rfl⟩
    exact ⟨answers, h₁, [a], hrun, ⟨a, h', [], hs, ⟨rfl, rfl⟩, rfl⟩, rfl⟩

/-! ## What a run keeps -/

/-- What a run has come to behind the steps: its sets know what was declared on them, its answers are the
    right ones, and it has told of every name that was new. -/
structure Tells (first : Declared) (steps : List Step) (answers : List Answer) (h : History) : Prop where
  sets : h.sets.length = setsBehind steps
  declaredOn : ∀ i x, DeclaredOn steps i x → i < setsBehind steps
  has : ∀ i d, h.sets[i]? = some d → ∀ x, d.has x = true ↔ x ∈ first.names ∨ DeclaredOn steps i x
  length : answers.length = steps.length
  answered : ∀ before s after, steps = before ++ s :: after →
    ∃ a, answers[before.length]? = some a ∧ Answered first before s a
  records : h.records = newRecords steps answers

theorem has_iff_mem {d : Declared} : d.has x = true ↔ x ∈ d.names := List.contains_iff_mem

theorem not_declaredOn_nil : ¬DeclaredOn [] i x := by
  intro hd
  generalize hsteps : ([] : List Step) = steps at hd
  cases hd with
  | here before | inherited _ _ => simp at hsteps

theorem Tells.start (first : Declared) : Tells first [] [] (start first) where
  sets := rfl
  declaredOn i x hd := absurd hd not_declaredOn_nil
  has i d hd x := by
    have hfirst : d = first := by
      obtain ⟨_, hd⟩ := List.getElem?_eq_some_iff.1 hd
      simpa [History.start] using hd.symm
    simp [hfirst, has_iff_mem, not_declaredOn_nil]
  length := rfl
  answered before s after heq := by simp at heq
  records := rfl

/-- The right answer to a step, from what the sets know in front of it. -/
theorem Tells.answered_step (ht : Tells first steps answers h) (hstep : h.step s = some (a, h')) :
    Answered first steps s a := by
  have hknown : ∀ {i d x}, h.sets[i]? = some d → (d.has x = false ↔ x ∉ first.names ∧ ¬DeclaredOn steps i x) := by
    intro i d x hd
    rw [← not_or, ← ht.has i d hd x, Bool.not_eq_true]
  cases s with
  | declare i x =>
    obtain ⟨d, hd, rfl, -⟩ := step_declare.1 hstep
    exact .declare (by rw [Bool.not_eq_true', hknown hd])
  | ask i x =>
    obtain ⟨d, hd, rfl, -⟩ := step_ask.1 hstep
    exact .ask (hknown hd)
  | copy i =>
    obtain ⟨d, hd, rfl, -⟩ := step_copy.1 hstep
    rw [ht.sets]
    exact .copy i

/-- How many sets there are behind one more step. -/
theorem length_sets_step (hstep : h.step s = some (a, h')) :
    h'.sets.length = h.sets.length + if s.isCopy then 1 else 0 := by
  cases s with
  | declare i x =>
    obtain ⟨d, -, -, rfl⟩ := step_declare.1 hstep
    simp [Step.isCopy]
  | ask i x =>
    obtain ⟨d, -, -, rfl⟩ := step_ask.1 hstep
    simp [Step.isCopy]
  | copy i =>
    obtain ⟨d, -, -, rfl⟩ := step_copy.1 hstep
    simp [Step.isCopy]

/-- What the sets know behind one more step. -/
theorem Tells.has_step (ht : Tells first steps answers h) (hstep : h.step s = some (a, h')) {d : Declared}
    (hd : h'.sets[j]? = some d) : d.has y = true ↔ y ∈ first.names ∨ DeclaredOn (steps ++ [s]) j y := by
  rw [declaredOn_concat]
  cases s with
  | declare i x =>
    obtain ⟨e, he, -, rfl⟩ := step_declare.1 hstep
    by_cases hij : i = j
    · subst hij
      have hset : d = e.add x := by
        obtain ⟨hi, hd⟩ := List.getElem?_eq_some_iff.1 hd
        simpa using hd.symm
      have hname : Step.declare i x = Step.declare i y ↔ y = x := by simp [eq_comm]
      rw [hset, has_add, Bool.or_eq_true, beq_iff_eq, ht.has i e he, hname, or_comm, or_assoc]
      simp
    · have hother : h.sets[j]? = some d := by simpa [hij] using hd
      have hnot : Step.declare i x ≠ Step.declare j y := fun heq => hij (Step.declare.inj heq).1
      rw [ht.has j d hother]
      simp [hnot]
  | ask i x =>
    obtain ⟨e, -, -, rfl⟩ := step_ask.1 hstep
    rw [ht.has j d hd]
    simp
  | copy i =>
    obtain ⟨e, he, -, rfl⟩ := step_copy.1 hstep
    by_cases hj : j = h.sets.length
    · subst hj
      have hcopy : d = e := by simpa using hd.symm
      have hnone : ¬DeclaredOn steps h.sets.length y := by
        intro hdecl
        have hlt := ht.declaredOn _ y hdecl
        rw [ht.sets] at hlt
        exact absurd hlt (Nat.lt_irrefl _)
      rw [hcopy, ht.has i e he]
      simp [hnone, ← ht.sets]
    · have hold : h.sets[j]? = some d := by
        have hlt := (List.getElem?_eq_some_iff.1 hd).1
        rw [List.length_append, List.length_singleton] at hlt
        rwa [List.getElem?_append_left (by omega)] at hd
      rw [ht.has j d hold]
      simp [← ht.sets, hj]

theorem newRecords_concat (hlength : answers.length = steps.length) :
    newRecords (steps ++ [s]) (answers ++ [a]) = newRecords steps answers ++ newRecords [s] [a] := by
  rw [newRecords, List.zip_append hlength.symm, List.filterMap_append]
  rfl

theorem Tells.records_step (ht : Tells first steps answers h) (hstep : h.step s = some (a, h')) :
    h'.records = newRecords (steps ++ [s]) (answers ++ [a]) := by
  rw [newRecords_concat ht.length, ← ht.records]
  cases s with
  | declare i x =>
    obtain ⟨d, -, rfl, rfl⟩ := step_declare.1 hstep
    rw [History.records, List.map_append]
    cases d.has x <;> rfl
  | ask i x =>
    obtain ⟨d, -, rfl, rfl⟩ := step_ask.1 hstep
    exact (List.append_nil _).symm
  | copy i =>
    obtain ⟨d, -, rfl, rfl⟩ := step_copy.1 hstep
    exact (List.append_nil _).symm

/-- One step more. -/
theorem Tells.step (ht : Tells first steps answers h) (hstep : h.step s = some (a, h')) :
    Tells first (steps ++ [s]) (answers ++ [a]) h' where
  sets := by rw [length_sets_step hstep, ht.sets, setsBehind_concat]
  declaredOn i x hd := by
    have hset : s.set < setsBehind steps := by
      rw [← ht.sets, ← step_isSome_iff]
      exact ⟨a, h', hstep⟩
    rw [setsBehind_concat]
    rcases declaredOn_concat.1 hd with hd | rfl | ⟨j, rfl, rfl, -⟩
    · have := ht.declaredOn i x hd
      omega
    · exact Nat.lt_of_lt_of_le hset (Nat.le_add_right _ _)
    · simp [Step.isCopy]
  has i d hd x := ht.has_step hstep hd
  length := by simp [ht.length]
  answered before t after heq := by
    rcases eq_concat_cases heq with ⟨rfl, rfl, -⟩ | ⟨rest, -, rfl⟩
    · exact ⟨a, by simp [← ht.length], ht.answered_step hstep⟩
    · obtain ⟨b, hb, hanswered⟩ := ht.answered before t rest rfl
      refine ⟨b, ?_, hanswered⟩
      rw [List.getElem?_append_left (List.getElem?_eq_some_iff.1 hb).1, hb]
  records := ht.records_step hstep

/-- Every run. -/
theorem tells_of_run (hrun : (start first).run steps = some (answers, h)) : Tells first steps answers h := by
  induction steps using List.reverseRecOn generalizing answers h with
  | nil =>
    obtain ⟨rfl, rfl⟩ := run_nil_eq_some.1 hrun
    exact .start first
  | append_singleton steps s ih =>
    obtain ⟨as, h₁, a, hsteps, hs, rfl⟩ := run_concat_eq_some.1 hrun
    exact (ih hsteps).step hs

/-- Steps about sets that exist are all that can be run. -/
theorem run_isSome_iff : (∃ r, (start first).run steps = some r) ↔ EachExists steps := by
  induction steps using List.reverseRecOn with
  | nil => exact iff_of_true ⟨_, rfl⟩ (fun before s after heq => by simp at heq)
  | append_singleton steps s ih =>
    rw [eachExists_concat, ← ih]
    constructor
    · rintro ⟨⟨_, h'⟩, hrun⟩
      obtain ⟨as, h₁, a, hsteps, hs, -⟩ := run_concat_eq_some.1 hrun
      have hset := step_isSome_iff.1 ⟨a, h', hs⟩
      rw [(tells_of_run hsteps).sets] at hset
      exact ⟨⟨_, hsteps⟩, hset⟩
    · rintro ⟨⟨⟨as, h₁⟩, hsteps⟩, hset⟩
      rw [← (tells_of_run hsteps).sets] at hset
      obtain ⟨a, h', hs⟩ := step_isSome_iff.2 hset
      exact ⟨_, run_concat_eq_some.2 ⟨as, h₁, a, hsteps, hs, rfl⟩⟩

/-! ## What a step cannot change -/

/-- The later answers are the same without a question. -/
theorem run_without_ask (hrun : (start first).run (before ++ .ask i x :: after) = some (answers, h)) :
    (start first).run (before ++ after) = some (answers.eraseIdx before.length, h) := by
  obtain ⟨as, h₁, _, hbefore, hrest, rfl⟩ := run_append_eq_some.1 hrun
  obtain ⟨a, h₂, bs, hask, hafter, rfl⟩ := run_cons_eq_some.1 hrest
  obtain ⟨d, -, -, rfl⟩ := step_ask.1 hask
  refine run_append_eq_some.2 ⟨as, h₁, bs, hbefore, hafter, ?_⟩
  rw [← (tells_of_run hbefore).length, List.eraseIdx_append_of_length_le (Nat.le_refl _), Nat.sub_self]
  rfl

theorem setsBehind_declare (before mid : List Step) (i : Nat) (x : String) :
    setsBehind (before ++ .declare i x :: mid) = setsBehind (before ++ mid) := by
  simp [setsBehind, Step.isCopy]

/-- What is declared on one set is not declared on another that exists already. -/
theorem declaredOn_without_declare (hne : j ≠ i) (hj : j < setsBehind before) (mid : List Step) :
    DeclaredOn (before ++ .declare i x :: mid) j y ↔ DeclaredOn (before ++ mid) j y := by
  induction mid using List.reverseRecOn with
  | nil =>
    have hnot : Step.declare i x ≠ Step.declare j y := fun heq => hne (Step.declare.inj heq).1.symm
    rw [declaredOn_concat, List.append_nil]
    simp [hnot]
  | append_singleton mid s ih =>
    -- No copy that is made from here on is the set `j`.
    have hold : j ≠ setsBehind (before ++ mid) := by
      have := setsBehind_le_append before mid
      omega
    rw [← List.cons_append, ← List.append_assoc, ← List.append_assoc, declaredOn_concat, declaredOn_concat,
      setsBehind_declare, ih]
    simp [hold]

theorem Answered.unique {first : Declared} {before before' : List Step} {s : Step} {a a' : Answer}
    (h : Answered first before s a) (h' : Answered first before' s a')
    (hsets : setsBehind before = setsBehind before')
    (hdeclared : ∀ x, DeclaredOn before s.set x ↔ DeclaredOn before' s.set x) : a = a' := by
  cases h with
  | @declare i x new hnew =>
    cases h' with
    | declare hnew' =>
      have hsame : DeclaredOn before i x ↔ DeclaredOn before' i x := hdeclared x
      rw [hsame, ← hnew'] at hnew
      rw [Bool.eq_iff_iff.2 hnew]
  | @ask i x known hknown =>
    cases h' with
    | ask hknown' =>
      have hsame : DeclaredOn before i x ↔ DeclaredOn before' i x := hdeclared x
      rw [hsame, ← hknown', ← Bool.not_eq_true, ← Bool.not_eq_true, not_iff_not] at hknown
      rw [Bool.eq_iff_iff.2 hknown]
  | copy i =>
    cases h' with
    | copy => rw [hsets]

/-- Without a declaration there is the same answer to every later step about another set that existed when it
    was made. -/
theorem run_without_declare (hrun : (start first).run (before ++ .declare i x :: after) = some (answers, h)) :
    ∃ answers' h', (start first).run (before ++ after) = some (answers', h') ∧
      ∀ mid s rest, after = mid ++ s :: rest → s.set ≠ i → s.set < setsBehind before →
        answers'[before.length + mid.length]? = answers[before.length + 1 + mid.length]? := by
  have hexists : EachExists (before ++ after) := by
    have hall := run_isSome_iff.1 ⟨_, hrun⟩
    rw [List.append_cons, eachExists_append, eachExists_concat] at hall
    refine eachExists_append.2 ⟨hall.1.1, fun mid s rest heq => ?_⟩
    rw [← setsBehind_declare before mid i x, List.append_cons]
    exact hall.2 mid s rest heq
  obtain ⟨⟨answers', h'⟩, hrun'⟩ := run_isSome_iff.2 hexists
  refine ⟨answers', h', hrun', fun mid s rest heq hne hlt => ?_⟩
  subst heq
  obtain ⟨a, ha, hanswered⟩ := (tells_of_run hrun).answered (before ++ .declare i x :: mid) s rest (by simp)
  obtain ⟨a', ha', hanswered'⟩ := (tells_of_run hrun').answered (before ++ mid) s rest (by simp)
  have hsame := hanswered.unique hanswered' (setsBehind_declare before mid i x)
    (fun y => declaredOn_without_declare hne hlt mid)
  rw [List.length_append] at ha ha'
  rw [ha', ← hsame, ← ha, List.length_cons]
  congr 1
  omega

/-! ## Every run -/

/-- From every set that there can be at the start, empty or with parameters, every sequence of steps about
    sets that exist is answered, each step by what was declared along one line of copies. Questions change
    nothing that comes later, a declaration nothing about the other sets that there are, and the log has a
    record for each name that was new. -/
theorem answers_tell_the_history (first : Declared) (steps : List Step) :
    ((∃ r, (start first).run steps = some r) ↔ EachExists steps) ∧
      ∀ answers h, (start first).run steps = some (answers, h) →
        answers.length = steps.length ∧
        (∀ before s after, steps = before ++ s :: after →
          ∃ a, answers[before.length]? = some a ∧ Answered first before s a) ∧
        (∀ before i x after, steps = before ++ .ask i x :: after →
          (start first).run (before ++ after) = some (answers.eraseIdx before.length, h)) ∧
        (∀ before i x after, steps = before ++ .declare i x :: after →
          ∃ answers' h', (start first).run (before ++ after) = some (answers', h') ∧
            ∀ mid s rest, after = mid ++ s :: rest → s.set ≠ i → s.set < setsBehind before →
              answers'[before.length + mid.length]? = answers[before.length + 1 + mid.length]?) ∧
        h.records = newRecords steps answers := by
  refine ⟨run_isSome_iff, fun answers h hrun => ?_⟩
  have ht := tells_of_run hrun
  refine ⟨ht.length, ht.answered, fun before i x after heq => ?_, fun before i x after heq => ?_, ht.records⟩
  · subst heq
    exact run_without_ask hrun
  · subst heq
    exact run_without_declare hrun

/-- Two sets go their own ways behind a copy. A parameter that is named twice is known like any other. -/
example : ((start (.ofParameters ["a", "a"])).run [.declare 0 "x", .copy 0, .declare 0 "y", .ask 1 "x", .ask 1 "y",
      .declare 1 "y", .declare 1 "a"]).map (·.1) =
    some [.truth true, .set 1, .truth true, .truth true, .truth false, .truth true, .truth false] := by
  decide

end History

end ScriptToC.Declared
