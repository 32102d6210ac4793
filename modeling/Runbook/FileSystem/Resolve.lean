import Runbook.FileSystem.Walk

/-!
# Resolving paths

The canonical location of a path, found without asking whether anything stands there. Links are
replaced by what they lead to; a name that leads to nothing, or through a file, is kept; a double
dot takes the last name off what has been resolved so far.

What has been resolved so far is a way: it starts at the root or at the working directory, and one
place can be reached by several ways. A relative path stays bound to the working directory until a
link leads to the root, and what is still bound to it in the end can only be told as long as the
working directory is there.

A link is resolved once for each way to it, and what it leads to is remembered. If a link is met
again on the same way while its own target is being resolved, the links run in a circle. The number
of links that wait for one another is limited, which is also why resolving ends.
-/

namespace Runbook

/-- A way to a place, without links, dots and needless double dots. -/
structure Way where
  /-- Where it starts. -/
  anchor : Anchor
  /-- How many directories it first leads up from the working directory. -/
  ups : Nat
  /-- The names that then lead down, the innermost first. -/
  names : List String
deriving DecidableEq, Repr

namespace Way

def here : Way := ⟨.relative, 0, []⟩

def root : Way := ⟨.root, 0, []⟩

def up (w : Way) : Way :=
  match w.names with
  | _ :: above => { w with names := above }
  | [] => if w.anchor = .relative then { w with ups := w.ups + 1 } else w

/-- The way to what has the given name. -/
def down (w : Way) (name : String) : Way := { w with names := name :: w.names }

/-- The place that the way leads to from the working directory `here`. -/
def location (here : Location) (w : Way) : Location :=
  if w.anchor = .relative then w.names ++ here.drop w.ups else w.names

/-- The number of bytes of the written way. -/
def size (w : Way) : Nat :=
  w.names.foldl (fun n name ↦ n + name.utf8ByteSize + 1) (3 * w.ups) -
    if w.anchor = .relative then 1 else 0

/-- Follows names by their letter alone. -/
def follow (w : Way) : List String → Way
  | [] => w
  | name :: rest =>
    if name = "" ∨ name = "." then w.follow rest
    else if name = ".." then w.up.follow rest
    else (w.down name).follow rest

/-- Appends the rest of a written path by its letter. A rest that starts with a slash is a path of
its own. -/
def append (w : Way) (rest : List String) : Way :=
  match Path.anchorOf ("/".intercalate rest).toList with
  | .relative => w.follow rest
  | anchor => (Way.mk anchor 0 []).follow rest

end Way

/-- Why a path cannot be resolved. -/
inductive Obstacle where
  /-- Its links run in a circle. What is resolved up to the link that closes the circle is given,
  with the rest of the path appended by its letter. -/
  | circle (stuck : Way)
  /-- Too many links wait for one another. -/
  | tooDeep
deriving DecidableEq, Repr

/-- The obstacle to a path that goes on behind the link whose target meets it. -/
def Obstacle.append (rest : List String) : Obstacle → Obstacle
  | .circle stuck => .circle (stuck.append rest)
  | .tooDeep => .tooDeep

/-- What links lead to, by the ways to them. A link that waits for its target has no value yet. -/
abbrev Resolutions : Type := List (Way × Option Way)

namespace FileSystem

/-- The target of the link at the end of a way. What an overlong way leads to is not looked at. -/
def linkAt? (fs : FileSystem) (here : Location) (w : Way) : Option String :=
  if maxPathSize < w.size then none
  else match fs.node? (w.location here) with
    | some (.link target) => some target
    | _ => none

/-- Resolves `names` from the end of a way, with at most `depth` links waiting for one another. -/
def resolveFrom (fs : FileSystem) (here : Location) (depth : Nat) (known : Resolutions) (w : Way) :
    (names : List String) → Except Obstacle (Way × Resolutions)
  | [] => .ok (w, known)
  | name :: rest =>
    if name = "" ∨ name = "." then fs.resolveFrom here depth known w rest
    else if name = ".." then fs.resolveFrom here depth known w.up rest
    else
      let next := w.down name
      match fs.linkAt? here next with
      | none => fs.resolveFrom here depth known next rest
      | some target =>
        match known.lookup next with
        | some (some there) => fs.resolveFrom here depth known there rest
        | some none => .error (.circle (next.append rest))
        | none =>
          match depth with
          | 0 => .error .tooDeep
          | left + 1 =>
            let start := if Path.anchorOf target.toList = .relative then w else .root
            match fs.resolveFrom here left ((next, none) :: known) start (Path.namesOf target) with
            | .error obstacle => .error (obstacle.append rest)
            | .ok (there, known) =>
              fs.resolveFrom here (left + 1) ((next, some there) :: known) there rest
termination_by names => (depth, names.length)

/-- The way that a path leads in the end, from the working directory `here`. -/
def resolve (fs : FileSystem) (here : Location) (p : Path) : Except Obstacle Way :=
  (fs.resolveFrom here depthLimit []
    (if p.isAbsolute then .root else .here) p.names).map Prod.fst

end FileSystem

end Runbook
