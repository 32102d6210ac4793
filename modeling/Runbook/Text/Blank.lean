import Runbook.Text.Ranges

/-!
# White space

Blank characters are the 25 white-space characters of Unicode and the four information separators
U+001C to U+001F. A gap is a blank that does not end a line: env files tell the two apart, since
space before a key may run over several lines and space inside a line may not.
-/

namespace Runbook.Text

def blankRanges : List (Nat × Nat) :=
  [(0x09, 0x0D), (0x1C, 0x20), (0x85, 0x85), (0xA0, 0xA0), (0x1680, 0x1680), (0x2000, 0x200A),
   (0x2028, 0x2029), (0x202F, 0x202F), (0x205F, 0x205F), (0x3000, 0x3000)]

/-- White space of any kind, line ends included. -/
def isBlank (c : Char) : Bool := inRanges blankRanges c.toNat

def isLineEnd (c : Char) : Bool := c = '\n' || c = '\r'

/-- White space inside a line. -/
def isGap (c : Char) : Bool := isBlank c && !isLineEnd c

/-- The text without the blanks at its end. -/
def trimRight (cs : List Char) : List Char := (cs.reverse.dropWhile isBlank).reverse

theorem blankRanges_apart : rangesApart blankRanges = true := by decide

theorem isBlank_of_isLineEnd {c : Char} (h : isLineEnd c = true) : isBlank c = true := by
  simp only [isLineEnd, Bool.or_eq_true, decide_eq_true_eq] at h
  rcases h with rfl | rfl <;> decide

theorem isGap_of_isLineEnd {c : Char} (h : isLineEnd c = true) : isGap c = false := by
  rw [isGap, h]
  exact Bool.and_false _

theorem isGap_iff {c : Char} : isGap c = true ↔ isBlank c = true ∧ c ≠ '\n' ∧ c ≠ '\r' := by
  simp [isGap, isLineEnd]

end Runbook.Text
