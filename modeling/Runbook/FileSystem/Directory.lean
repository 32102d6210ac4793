import Runbook.FileSystem.Fault
import Runbook.FileSystem.Walk

/-!
# Creating directories

A directory is created together with the directories above it that are missing. The path itself is
tried first; only if something on the way is missing is its parent created in the same way, and
then the path is tried once more. Any other error is forgiven if a directory stands at the path
after all.

A failure half-way leaves the parents that were created, so the outcome is a file system together
with a verdict. How far up the path something is missing can be told beforehand (`missingDepth`).
-/

namespace Runbook.FileSystem

/-- Creates one directory. Whatever stands at its place already, a link included, is in the way. -/
def addDirectory (fs : FileSystem) (r : Route) : Except ErrorCode FileSystem :=
  match fs.place r with
  | .error e => .error e
  | .ok here =>
    match fs.node? here with
    | some _ => .error .exists
    | none => .ok (fs.put here .directory)

/-- Creates the directory of a path, unless a fault refuses it. -/
def tryDirectory (fs : FileSystem) (faults : List Fault) (here : Location) (p : Path) :
    Except SystemError FileSystem :=
  match Fault.error? faults .mkdir p.toString with
  | some e => .error e
  | none =>
    match fs.addDirectory (p.route here) with
    | .error code => .error (code.about p.toString)
    | .ok fs => .ok fs

/-- Forgives an error about a path at which a directory stands. -/
def forgive (fs : FileSystem) (here : Location) (p : Path) (e : SystemError) :
    Except SystemError Unit :=
  match fs.isDirectory (p.route here) with
  | .error code => .error (code.about p.toString)
  | .ok true => .ok ()
  | .ok false => .error e

/-- How many paths, from `p` upwards, are tried in vain because something above them is missing. -/
def missingDepth (fs : FileSystem) (faults : List Fault) (here : Location) (p : Path) : Nat :=
  match fs.tryDirectory faults here p with
  | .ok _ => 0
  | .error e =>
    if !e.isNotFound then 0
    else if _h : p.names = [] then 0
    else fs.missingDepth faults here p.parent + 1
termination_by p.names.length
decreasing_by
  have := List.length_pos_iff.2 _h
  simp only [Path.parent, List.length_dropLast]
  omega

/-- Creates the directory of a path and the missing directories above it. -/
def addDirectories (fs : FileSystem) (faults : List Fault) (here : Location) (p : Path) :
    FileSystem × Except SystemError Unit :=
  match fs.tryDirectory faults here p with
  | .ok fs => (fs, .ok ())
  | .error e =>
    if !e.isNotFound then (fs, fs.forgive here p e)
    else if _h : p.names = [] then (fs, .error e)
    else match fs.addDirectories faults here p.parent with
      | (fs, .error e) => (fs, .error e)
      | (fs, .ok ()) =>
        match fs.tryDirectory faults here p with
        | .ok fs => (fs, .ok ())
        | .error e =>
          if e.isNotFound then (fs, .error e) else (fs, fs.forgive here p e)
termination_by p.names.length
decreasing_by
  have := List.length_pos_iff.2 _h
  simp only [Path.parent, List.length_dropLast]
  omega

end Runbook.FileSystem
