/-!
# Classes of characters as ranges

A property of characters is kept as a list of closed ranges of code points, ascending and apart, so
that a table can be checked by computation and read by eye. Membership is the only operation.
-/

namespace Runbook.Text

/-- Whether the code point `n` lies in one of the closed ranges. -/
def inRanges (ranges : List (Nat × Nat)) (n : Nat) : Bool :=
  ranges.any fun r ↦ r.1 ≤ n && n ≤ r.2

/-- Whether the ranges ascend and leave a gap between neighbours, so that none can be merged. -/
def rangesApart : List (Nat × Nat) → Bool
  | [] => true
  | [r] => r.1 ≤ r.2
  | r :: s :: rest => r.1 ≤ r.2 && r.2 + 1 < s.1 && rangesApart (s :: rest)

end Runbook.Text
