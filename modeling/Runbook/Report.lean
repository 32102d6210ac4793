import Runbook.Value

/-!
# Reports

A report says where something failed, what kind of failure it is, and what a reader should know,
with a context of named values. Its one-line form shows the context in full up to 300 characters and
cuts a longer one, with an ellipsis that keeps it at 300.
-/

namespace Runbook

/-- A report of a failure. -/
structure Report where
  /-- The step that failed. -/
  step : String
  /-- The kind of failure. -/
  kind : String
  /-- The message for the user. -/
  message : String
  /-- Named values. -/
  context : List (String × Value) := []

namespace Report

def contextLimit : Nat := 300

/-- The text itself, or its beginning with an ellipsis if it is longer than the limit. -/
def cut (cs : List Char) : List Char :=
  if contextLimit < cs.length then cs.take (contextLimit - 3) ++ ['.', '.', '.'] else cs

def contextValue (context : List (String × Value)) : Value :=
  .dict (context.map fun e ↦ (.text e.1, e.2))

/-- What follows the message: nothing if there is no context. -/
def suffix (context : List (String × Value)) : List Char :=
  if context.isEmpty then []
  else " | context=".toList ++ cut (contextValue context).render

def line (r : Report) : String :=
  r.kind ++ ": " ++ r.message ++ String.ofList (suffix r.context)

theorem length_cut_le (cs : List Char) : (cut cs).length ≤ contextLimit := by
  unfold cut
  split
  · simp only [List.length_append, List.length_take, List.length_cons, List.length_nil,
      contextLimit] at *
    omega
  · omega

end Report

end Runbook
