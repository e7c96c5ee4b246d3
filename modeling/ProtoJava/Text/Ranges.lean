/-! # Ranges of code points

Properties of characters are given as tables of inclusive ranges.
-/

namespace ProtoJava.Text

/-- Whether a character lies in one of the ranges. -/
def inRanges (table : List (Nat × Nat)) (c : Char) : Bool :=
  table.any fun r => r.1 ≤ c.toNat && c.toNat ≤ r.2

end ProtoJava.Text
