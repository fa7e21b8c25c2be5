/-
  ScriptToC.Declared.History — several sets of declared names that live side by side. Each can be
  added to, asked, and copied; a copy goes its own way.
-/

import ScriptToC.Declared

namespace ScriptToC.Declared

/-- Sets are numbered from zero, in the order in which they came to be. -/
inductive Step
  | declare (set : Nat) (name : String)
  | ask (set : Nat) (name : String)
  | copy (set : Nat)
  deriving DecidableEq, Repr

inductive Answer
  /-- Whether the declaration was a new one, or the name was found. -/
  | truth (b : Bool)
  /-- The number of the copy. -/
  | set (number : Nat)
  deriving DecidableEq, Repr

/-- The sets so far, and every name that was new when it was declared, in order. -/
structure History where
  sets : List Declared
  fresh : List String
  deriving DecidableEq, Repr

namespace History

def start (first : Declared) : History := ⟨[first], []⟩

/-- There is no answer about a set that does not exist. -/
def step (h : History) : Step → Option (Answer × History)
  | .declare i x => do
    let d ← h.sets[i]?
    if d.has x then return (.truth false, h)
    else return (.truth true, ⟨h.sets.set i (d.add x), h.fresh ++ [x]⟩)
  | .ask i x => do
    let d ← h.sets[i]?
    return (.truth (d.has x), h)
  | .copy i => do
    let d ← h.sets[i]?
    return (.set h.sets.length, ⟨h.sets ++ [d], h.fresh⟩)

def run (h : History) : List Step → Option (List Answer × History)
  | [] => some ([], h)
  | s :: ss => do
    let (a, h₁) ← h.step s
    let (as, h₂) ← h₁.run ss
    return (a :: as, h₂)

end History

end ScriptToC.Declared
