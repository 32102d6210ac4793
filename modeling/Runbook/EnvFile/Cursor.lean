import Runbook.Text.Blank
import Runbook.Text.LineBreak

/-!
# The cursor of the env file reader

A cursor is the number of the line that the reader stands on and the text that is left. The reader
takes one piece of text after another, and every piece adds the line breaks it holds to the line
number; a pair of carriage return and line feed counts once, unless a piece ends between the two.

No piece gives text back, and the pieces that are there to make progress leave strictly less.
-/

namespace Runbook.EnvFile

open Text

/-- Where the reader stands. -/
structure Cursor where
  /-- The number of the line, counted from one. -/
  line : Nat
  /-- The text that is left. -/
  rest : List Char
deriving DecidableEq, Repr

namespace Cursor

/-- Past the longest run of characters with the given property. -/
def skip (p : Char → Bool) (c : Cursor) : Cursor :=
  ⟨c.line + countBreaks (c.rest.takeWhile p), c.rest.dropWhile p⟩

def advance (n : Nat) (c : Cursor) : Cursor :=
  ⟨c.line + countBreaks (c.rest.take n), c.rest.drop n⟩

/-- Past a comment, if one follows on the line. -/
def skipComment (c : Cursor) : Cursor :=
  match (c.skip isGap).rest with
  | '#' :: _ => (c.skip isGap).skip fun d ↦ !isLineEnd d
  | _ => c

/-- Past the rest of the line and one character that ends it. -/
def skipLine (c : Cursor) : Cursor :=
  (c.skip fun d ↦ !isLineEnd d).advance 1

/-- Past the gap and the line break at the end of a statement, if nothing else is there. -/
def endLine? (c : Cursor) : Option Cursor :=
  let c := c.skip isGap
  match c.rest with
  | [] => some c
  | '\r' :: '\n' :: _ => some (c.advance 2)
  | '\n' :: _ => some (c.advance 1)
  | '\r' :: _ => some (c.advance 1)
  | _ => none

/-! ## What is left -/

theorem length_skip_le (p : Char → Bool) (c : Cursor) :
    (c.skip p).rest.length ≤ c.rest.length := (List.dropWhile_suffix p).length_le

theorem length_advance_le (n : Nat) (c : Cursor) :
    (c.advance n).rest.length ≤ c.rest.length := by simp [advance]

theorem length_skipComment_le (c : Cursor) : c.skipComment.rest.length ≤ c.rest.length := by
  unfold skipComment
  split
  · exact Nat.le_trans (length_skip_le _ _) (length_skip_le _ _)
  · exact Nat.le_refl _

theorem length_skipComment_lt {c : Cursor} {cs : List Char} (h : c.rest = '#' :: cs) :
    c.skipComment.rest.length < c.rest.length := by
  have hgap : (c.skip isGap).rest = '#' :: cs := by
    simp only [skip, h]
    exact List.dropWhile_cons_of_neg (by decide)
  have hcomment : ((c.skip isGap).skip fun d ↦ !isLineEnd d).rest
      = cs.dropWhile fun d ↦ !isLineEnd d := by
    rw [skip, hgap]
    simp [isLineEnd]
  unfold skipComment
  rw [hgap]
  simp only [hcomment, h, List.length_cons]
  exact Nat.lt_succ_of_le (List.dropWhile_suffix _).length_le

theorem length_skipLine_lt {c : Cursor} (h : c.rest ≠ []) :
    c.skipLine.rest.length < c.rest.length := by
  have hle := length_skip_le (fun d ↦ !isLineEnd d) c
  have hpos := List.length_pos_iff.2 h
  simp only [skipLine, advance, List.length_drop]
  omega

theorem length_endLine?_le {c next : Cursor} (h : c.endLine? = some next) :
    next.rest.length ≤ c.rest.length := by
  have hle := length_skip_le isGap c
  unfold endLine? at h
  simp only at h
  split at h <;> simp only [Option.some.injEq, reduceCtorEq] at h <;> subst h <;>
    first
      | exact hle
      | exact Nat.le_trans (length_advance_le _ _) hle

end Cursor

end Runbook.EnvFile
