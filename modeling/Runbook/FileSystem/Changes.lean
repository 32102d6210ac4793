import Runbook.FileSystem.Basic

/-!
# Comparing file systems

What differs between two states of a file system, place by place in the order of their paths.
Whether a file can be executed is no difference.
-/

namespace Runbook

/-- Whether two nodes are of one kind and hold the same. -/
def Node.agrees : Node → Node → Bool
  | .file a _, .file b _ => a == b
  | .directory, .directory => true
  | .link s, .link t => s == t
  | _, _ => false

/-- A place that differs, with what stands there afterwards. -/
structure Change where
  /-- The written path of the place. -/
  path : String
  /-- What stands there now, if anything does. -/
  node : Option Node
deriving DecidableEq, Repr

namespace FileSystem

/-- The places of `after` that are new or differ from `before`. -/
def additions (before after : FileSystem) : List Change :=
  after.nodes.filterMap fun e ↦
    match before.node? e.1 with
    | some node =>
      if node.agrees e.2 then none else some ⟨(Location.path e.1).toString, some e.2⟩
    | none => some ⟨(Location.path e.1).toString, some e.2⟩

/-- The places of `before` at which nothing stands in `after`. -/
def removals (before after : FileSystem) : List Change :=
  before.nodes.filterMap fun e ↦
    match after.node? e.1 with
    | some _ => none
    | none => some ⟨(Location.path e.1).toString, none⟩

/-- All differences, in the order of their paths. -/
def changes (before after : FileSystem) : List Change :=
  (additions before after ++ removals before after).mergeSort fun a b ↦ decide (a.path ≤ b.path)

end FileSystem

end Runbook
