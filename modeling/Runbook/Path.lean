import Runbook.Text.Field

/-!
# Paths

A path is an anchor and a list of names. Reading one drops empty names and single dots, so that a
path has one written form; double dots stay, because what lies above a symbolic link is for the
file system to say. Exactly two leading slashes are an anchor of their own.
-/

namespace Runbook

/-- Where a path starts. -/
inductive Anchor where
  /-- At the working directory. -/
  | relative
  /-- At the root. -/
  | root
  /-- At the root, written with two slashes. -/
  | doubleRoot
deriving DecidableEq, Repr

def Anchor.text : Anchor → String
  | .relative => ""
  | .root => "/"
  | .doubleRoot => "//"

/-- A path, normalised without looking at any file system. -/
structure Path where
  /-- Where it starts. -/
  anchor : Anchor
  /-- The names that lead on from there. -/
  names : List String
deriving DecidableEq, Repr

namespace Path

/-- The anchor of a written path. -/
def anchorOf : List Char → Anchor
  | '/' :: '/' :: '/' :: _ => .root
  | '/' :: '/' :: _ => .doubleRoot
  | '/' :: _ => .root
  | _ => .relative

/-- The names between the slashes of a written path, empty ones included. -/
def namesOf (s : String) : List String := (Text.fields '/' s.toList).map String.ofList

def ofString (s : String) : Path :=
  ⟨anchorOf s.toList, (namesOf s).filter fun name ↦ name != "" && name != "."⟩

/-- The written form. The path without names is a single dot. -/
def toString (p : Path) : String :=
  if p.anchor = .relative ∧ p.names = [] then "."
  else p.anchor.text ++ "/".intercalate p.names

def isAbsolute (p : Path) : Bool := p.anchor != .relative

/-- The path `q` as seen from `p`. -/
def join (p q : Path) : Path := if q.isAbsolute then q else ⟨p.anchor, p.names ++ q.names⟩

/-- The path without its last name. A path without names is its own parent. -/
def parent (p : Path) : Path := ⟨p.anchor, p.names.dropLast⟩

/-- Whether a NUL character stands in the path. No file system has a name for such a path. -/
def hasNul (p : Path) : Bool := p.names.any fun name ↦ name.toList.contains '\x00'

end Path

end Runbook
