/-
  ScriptToC.Expr — expressions of the script language, and how tightly their operators bind.

  A tree keeps the parentheses that were written: `grouped e` is `e` in parentheses. Nothing in the
  type says that an operand of an operator binds tightly enough; that is a property of the trees
  that come from a text.
-/

import ScriptToC.Token

namespace ScriptToC

inductive Expr
  | number (value : UInt64)
  | name (text : String)
  | arith (op : ArithOp) (left right : Expr)
  | compare (op : CompareOp) (left right : Expr)
  /-- Written `whenTrue if condition else whenFalse`. -/
  | conditional (condition whenTrue whenFalse : Expr)
  | grouped (inner : Expr)
  deriving DecidableEq, Repr

/-- Whether parentheses around the expression matter. -/
def Expr.isOperation : Expr → Bool
  | .arith .. | .compare .. | .conditional .. => true
  | .number _ | .name _ | .grouped _ => false

/-- The ranks of operators, the tightest first. -/
inductive Tier
  | atom
  | product
  | sum
  | comparison
  | conditional
  deriving DecidableEq, Repr

def ArithOp.tier : ArithOp → Tier
  | .add | .sub => .sum
  | .mul | .div => .product

/-- The next tighter tier, whose expressions are the operands of this one. -/
def Tier.operand : Tier → Tier
  | .conditional => .comparison
  | .comparison => .sum
  | .sum => .product
  | .product | .atom => .atom

def Tier.rank : Tier → Nat
  | .atom => 0
  | .product => 1
  | .sum => 2
  | .comparison => 3
  | .conditional => 4

theorem Tier.rank_le (t : Tier) : t.rank ≤ 4 := by cases t <;> decide

end ScriptToC
