/-
  ScriptToC.Declared — the names that a sequence of statements has declared so far.

  A function's body starts with the parameters and knows nothing else, and what it declares stays
  in it. So every sequence has a set of its own.
-/

namespace ScriptToC

structure Declared where
  names : List String
  deriving DecidableEq, Repr

namespace Declared

def empty : Declared := ⟨[]⟩

def ofParameters (params : List String) : Declared := ⟨params⟩

def has (d : Declared) (name : String) : Bool := d.names.contains name

def add (d : Declared) (name : String) : Declared := if d.has name then d else ⟨name :: d.names⟩

@[simp] theorem has_empty (name : String) : empty.has name = false := rfl

@[simp] theorem has_add (d : Declared) (x y : String) : (d.add x).has y = (y == x || d.has y) := by
  unfold add
  split
  · rename_i h
    by_cases e : y = x
    · subst e; simp [h]
    · simp [e]
  · simp [has, Bool.beq_eq_decide_eq]

end Declared

end ScriptToC
