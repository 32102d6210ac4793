/-!
# Line breaks

A line ends with a line feed, a carriage return, or the pair of both, which counts once. Text read
from a file has its line breaks made uniform before anything else looks at it; text handed in
directly keeps them, and readers count them as they go.
-/

namespace Runbook.Text

/-- Every line break as a single line feed. -/
def unifyBreaks : List Char → List Char
  | [] => []
  | '\r' :: '\n' :: cs => '\n' :: unifyBreaks cs
  | c :: cs => (if c = '\r' then '\n' else c) :: unifyBreaks cs

def countBreaks : List Char → Nat
  | [] => 0
  | '\r' :: '\n' :: cs => countBreaks cs + 1
  | c :: cs => if c = '\n' ∨ c = '\r' then countBreaks cs + 1 else countBreaks cs

theorem countBreaks_eq_zero {cs : List Char} (h : ∀ c ∈ cs, c ≠ '\n' ∧ c ≠ '\r') :
    countBreaks cs = 0 := by
  fun_induction countBreaks cs <;> simp_all

end Runbook.Text
