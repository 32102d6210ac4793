import Runbook.Path
import Runbook.Trie

/-!
# File systems

A file system says what stands at each location. A location names a place outright: no dots, no
links to follow. Locations are kept innermost name first, so that the directory around a place is
the tail of its location and a child is one more name in front. The root has the empty location, is
always a directory, and is not in the tree.

A directory that is removed while a process stands in it lives on for that process, without a name
of its own. Its location has the empty name in front, which no path can spell, and behind it the
location of the directory around it. Like the root it is always a directory and not in the tree.
-/

namespace Runbook

/-- A place in a file system: the names that lead to it, the innermost first. -/
abbrev Location : Type := List String

/-- The absolute path of a location. -/
def Location.path (here : Location) : Path := ⟨.root, here.reverse⟩

/-- The name that stands for a removed directory. -/
def removedName : String := ""

/-- Whether a location is that of a removed directory. -/
def Location.isRemoved (here : Location) : Bool := here.head? == some removedName

/-- What stands at a location. -/
inductive Node where
  /-- A regular file. -/
  | file (content : List UInt8) (executable : Bool)
  /-- A directory. -/
  | directory
  /-- A symbolic link. -/
  | link (target : String)
deriving DecidableEq, Repr

def Node.isDirectory : Node → Bool
  | .directory => true
  | _ => false

def Node.isFile : Node → Bool
  | .file .. => true
  | _ => false

/-- What stands where. -/
structure FileSystem where
  /-- The nodes below the root. -/
  tree : Trie Node := .empty
deriving DecidableEq, Repr

namespace FileSystem

/-- What stands at a location. -/
def node? (fs : FileSystem) (here : Location) : Option Node :=
  if here = [] ∨ here.isRemoved then some .directory else fs.tree.find? here.reverse

def subtree (fs : FileSystem) (here : Location) : Trie Node := fs.tree.descend here.reverse

/-- The locations at which something stands, with what stands there. -/
def nodes (fs : FileSystem) : List (Location × Node) := fs.tree.entries []

/-- Puts a node at a location, in place of what stood there. -/
def put (fs : FileSystem) (here : Location) (node : Node) : FileSystem :=
  ⟨fs.tree.insert node here.reverse⟩

/-- Removes what stands at a location and everything below it. -/
def removeTree (fs : FileSystem) (here : Location) : FileSystem := ⟨fs.tree.prune here.reverse⟩

@[simp] theorem node?_nil (fs : FileSystem) : fs.node? [] = some .directory := by simp [node?]

theorem node?_cons (fs : FileSystem) (name : String) (here : Location) :
    fs.node? (name :: here) =
      if name = removedName then some .directory else (fs.subtree here).value? name := by
  simp [node?, Location.isRemoved, subtree, Trie.find?_concat]

theorem subtree_cons (fs : FileSystem) (name : String) (here : Location) :
    fs.subtree (name :: here) = (fs.subtree here).subtrie name := by
  simp [subtree, Trie.descend]

theorem node?_put (fs : FileSystem) (here : Location) (node : Node) (there : Location) :
    (fs.put here node).node? there =
      if there = [] ∨ there.isRemoved then some .directory
      else if there = here then some node else fs.node? there := by
  by_cases h : there = [] ∨ there.isRemoved
  · simp [node?, h]
  · rw [not_or] at h
    simp [node?, put, h.1, h.2, Trie.find?_insert, List.reverse_inj]

theorem node?_removeTree (fs : FileSystem) (here there : Location) :
    (fs.removeTree here).node? there =
      if there = [] ∨ there.isRemoved then some .directory
      else if here <:+ there then none else fs.node? there := by
  by_cases h : there = [] ∨ there.isRemoved
  · simp [node?, h]
  · rw [not_or] at h
    simp [node?, removeTree, h.1, h.2, Trie.find?_prune, List.reverse_prefix]

end FileSystem

end Runbook
