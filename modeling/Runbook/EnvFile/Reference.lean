import Runbook.Keyed

/-!
# References in values

A value may refer to other values: `${NAME}`, or `${NAME:-fallback}` with what is to stand there if
the name is unknown. A value is first cut into its template, a list of plain characters and complete
references, in one pass from left to right; whatever does not complete a reference is plain text.
Only then are the references replaced, so that a replacement is never looked at again.
-/

namespace Runbook.EnvFile

/-- A reference to another value. -/
structure Reference where
  /-- The name of the value. -/
  name : String
  /-- What stands there if the name is unknown. -/
  fallback : Option String
deriving DecidableEq, Repr

/-- A part of a value. -/
inductive Segment where
  /-- A character that stands for itself. -/
  | plain (c : Char)
  /-- A reference. -/
  | reference (r : Reference)
deriving DecidableEq, Repr

def isNameChar (c : Char) : Bool := c != '\x7d' && c != ':'

def isFallbackChar (c : Char) : Bool := c != '\x7d'

/-- Reads a reference after its opening brace. Returns what is left after the closing one. -/
def readReference? (cs : List Char) : Option (Reference × List Char) :=
  let name := String.ofList (cs.takeWhile isNameChar)
  match cs.dropWhile isNameChar with
  | '\x7d' :: rest => some (⟨name, none⟩, rest)
  | ':' :: '-' :: tail =>
    match tail.dropWhile isFallbackChar with
    | _ :: rest => some (⟨name, some (String.ofList (tail.takeWhile isFallbackChar))⟩, rest)
    | [] => none
  | _ => none

theorem length_readReference?_le {cs rest : List Char} {r : Reference}
    (h : readReference? cs = some (r, rest)) : rest.length ≤ cs.length := by
  have hle := (List.dropWhile_suffix isNameChar (l := cs)).length_le
  unfold readReference? at h
  dsimp only at h
  split at h
  · next hd =>
    simp only [Option.some.injEq, Prod.mk.injEq] at h
    rw [hd, h.2, List.length_cons] at hle
    omega
  · next tail hd =>
    split at h
    · next ht =>
      have ht' := (List.dropWhile_suffix isFallbackChar (l := tail)).length_le
      simp only [Option.some.injEq, Prod.mk.injEq] at h
      rw [ht, h.2, List.length_cons] at ht'
      rw [hd, List.length_cons, List.length_cons] at hle
      omega
    · cases h
  · cases h

/-- The parts of a value, in order. -/
def template : List Char → List Segment
  | [] => []
  | '$' :: '\x7b' :: cs =>
    match _h : readReference? cs with
    | some (r, rest) => .reference r :: template rest
    | none => .plain '$' :: template ('\x7b' :: cs)
  | c :: cs => .plain c :: template cs
termination_by cs => cs.length
decreasing_by
  · have := length_readReference?_le _h
    simp only [List.length_cons]
    omega
  all_goals simp

theorem template_dollar (cs : List Char) : template ('$' :: '\x7b' :: cs) =
    match readReference? cs with
    | some (r, rest) => .reference r :: template rest
    | none => .plain '$' :: template ('\x7b' :: cs) := by
  rw [template]
  split
  · next h => rw [h]
  · next h => rw [h]

/-- What a reference stands for: the latest of the earlier bindings, where a binding without a
value counts as the empty text, else the value in the environment, else the fallback. -/
def Reference.value (r : Reference) (environment : Keyed String)
    (earlier : List (String × Option String)) : String :=
  match earlier.lookup r.name with
  | some v => v.getD ""
  | none => (environment.lookup r.name).getD (r.fallback.getD "")

def Segment.text (environment : Keyed String) (earlier : List (String × Option String)) :
    Segment → List Char
  | .plain c => [c]
  | .reference r => (r.value environment earlier).toList

/-- A written value with its references replaced. The latest earlier binding comes first. -/
def expand (environment : Keyed String) (earlier : List (String × Option String))
    (written : String) : String :=
  String.ofList ((template written.toList).flatMap (Segment.text environment earlier))

end Runbook.EnvFile
