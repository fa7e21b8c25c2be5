/-
  ScriptToC.Expr.Read — expressions read from tokens.

  `Expr.read tier` takes the longest expression of a tier. An operator of a looser tier ends it,
  so operands never need parentheses that are not there, and operators of one tier group to the
  left. Comparisons and conditionals do not chain.
-/

import ScriptToC.Cursor
import ScriptToC.Expr

namespace ScriptToC

mutual

def Expr.read (tier : Tier) (c : Cursor) : Reading Expr c :=
  match tier with
  | .conditional => do
    let ⟨whenTrue, c₁, h₁⟩ ← Expr.read .comparison c
    match c₁.take? (.word .ifWord) with
    | none => return ⟨whenTrue, c₁, h₁⟩
    | some ⟨_, c₂, h₂⟩ =>
      let ⟨condition, c₃, h₃⟩ ← Expr.read .comparison c₂
      let ⟨_, c₄, h₄⟩ ← c₃.expect (.word .elseWord) .elseBranch
      let ⟨whenFalse, c₅, h₅⟩ ← Expr.read .comparison c₄
      return ⟨.conditional condition whenTrue whenFalse, c₅, by omega⟩
  | .comparison => do
    let ⟨left, c₁, h₁⟩ ← Expr.read .sum c
    match c₁.next? with
    | some ⟨.compare op, c₂, h₂⟩ =>
      let ⟨right, c₃, h₃⟩ ← Expr.read .sum c₂
      return ⟨.compare op left right, c₃, by omega⟩
    | _ => return ⟨left, c₁, h₁⟩
  | .sum => do
    let ⟨left, c₁, h₁⟩ ← Expr.read .product c
    Expr.readOperations .sum ⟨left, c₁, h₁⟩
  | .product => do
    let ⟨left, c₁, h₁⟩ ← Expr.read .atom c
    Expr.readOperations .product ⟨left, c₁, h₁⟩
  | .atom =>
    match c.next? with
    | some ⟨.number n, c₁, h₁⟩ => return ⟨.number n, c₁, h₁⟩
    | some ⟨.name x, c₁, h₁⟩ => return ⟨.name x, c₁, h₁⟩
    | some ⟨.mark .openParen, c₁, h₁⟩ => do
      let ⟨inner, c₂, h₂⟩ ← Expr.read .conditional c₁
      let ⟨_, c₃, h₃⟩ ← c₂.expect (.mark .closeParen) .closingParen
      return ⟨.grouped inner, c₃, by omega⟩
    | _ => throw (c.fail .expression)
termination_by 8 * c.rest.length + tier.rank
decreasing_by all_goals grind [Tier.rank]

/-- The operations of a tier that follow their first operand, however many there are. -/
def Expr.readOperations (tier : Tier) {c : Cursor} (left : Read Expr c) : Reading Expr c :=
  match left.next.next? with
  | some ⟨.arith op, c₁, h₁⟩ =>
    if op.tier = tier then do
      let ⟨right, c₂, h₂⟩ ← Expr.read tier.operand c₁
      Expr.readOperations tier ⟨.arith op left.value right, c₂, by have := left.shorter; omega⟩
    else return left
  | _ => return left
termination_by 8 * left.next.rest.length + 7
decreasing_by all_goals grind [Tier.rank_le]

end

end ScriptToC
