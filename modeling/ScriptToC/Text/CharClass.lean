/-
  ScriptToC.Text.CharClass — classes of characters, given by ranges of code points.
-/

namespace ScriptToC.Text

/-- Each range holds both its ends. -/
structure CharClass where
  ranges : List (Nat × Nat)

def CharClass.contains (k : CharClass) (c : Char) : Bool :=
  k.ranges.any fun (low, high) => low ≤ c.toNat && c.toNat ≤ high

end ScriptToC.Text
