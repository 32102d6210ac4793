import Runbook.FileSystem.Resolve
import Runbook.Machine

/-!
# The tool root

Env files with a relative name lie in the tool root. An environment variable can name it outright,
with a tilde for the home directory; otherwise it is the nearest directory around the program that
holds a project file. If there is none, it is the directory three levels above the program's file,
that is, around the package that the file is part of.

Both ways end in a canonical location: links resolved, no double dots.

A machine knows no users. A tilde that an operating system would look up among them, because a name
stands behind it or the environment names no home directory, cannot be replaced here.
-/

namespace Runbook

def rootVariable : String := "DEVTASK_ROOT"

def homeVariable : String := "HOME"

def projectFile : Path := Path.ofString "pyproject.toml"

/-- The text without the slashes at its end. -/
def trimSlashes (cs : List Char) : List Char := (cs.reverse.dropWhile (· == '/')).reverse

/-- The home directory, as the environment has it. -/
def homeDirectory? (environment : Keyed String) : Option (List Char) :=
  (environment.lookup homeVariable).map fun home ↦
    match trimSlashes home.toList with
    | [] => ['/']
    | cs => cs

/-- The path with a leading tilde replaced by the home directory. Nor can a tilde be replaced by a
home directory that starts with one itself. -/
def expandHome (environment : Keyed String) (p : Path) : Except Escape Path :=
  match p.anchor, p.names with
  | .relative, name :: rest =>
    if name.toList.head? ≠ some '~' then .ok p
    else if name ≠ "~" then .error .noHome
    else match homeDirectory? environment with
      | none => .error .noHome
      | some home =>
        if home.head? = some '~' then .error .noHome
        else
          let base := Path.ofString (String.ofList home)
          .ok ⟨base.anchor, base.names ++ rest⟩
  | _, _ => .ok p

namespace Machine

/-- The absolute path of a way. While the working directory is removed, only a way from the root has
one. -/
def pathOf (m : Machine) (w : Way) : Except Escape Path :=
  match w.anchor with
  | .relative =>
    if m.workingDirectory.isRemoved then .error (.system ErrorCode.notFound.plain)
    else .ok (w.location m.workingDirectory).path
  | anchor => .ok ⟨anchor, w.names.reverse⟩

/-- The canonical path of a path. Links that lead in a circle are no harm as long as the way that
is spelled behind them leads out of the circle again. Whether the canonical path can be walked is
only asked behind a circle: elsewhere it may hold links that were spelled too long to be seen, and
those are not followed to look for a circle among them. -/
def resolve (m : Machine) (p : Path) : Except Escape Path :=
  if p.hasNul then .error .nulInPath
  else match m.files.resolve m.workingDirectory p with
    | .ok w => m.pathOf w
    | .error .tooDeep => .error .deepLinks
    | .error (.circle stuck) => do
      let path ← m.pathOf stuck
      match m.files.nodeAt (m.route path) with
      | .error .tooManyLinks => .error (.linkCircle path)
      | _ => return path

end Machine

/-- The nearest directory at or above `here`, below the root, that holds a project file. The paths
have the given anchor. -/
def nearestProject (fs : FileSystem) (anchor : Anchor) :
    (here : Location) → Except Escape (Option Path)
  | [] => .ok none
  | name :: above =>
    let directory : Path := ⟨anchor, (name :: above).reverse⟩
    let marker := directory.join projectFile
    match fs.exists? (marker.route []) with
    | .error code => .error (.system (code.about marker.toString))
    | .ok true => .ok (some directory)
    | .ok false => nearestProject fs anchor above

namespace Machine

/-- The tool root as the program's own place has it. -/
def projectRoot (m : Machine) : Except Escape Path := do
  let directory := (← m.resolve m.programFile).parent
  let nearest ← nearestProject m.files directory.anchor directory.names.reverse
  return nearest.getD directory.parent.parent

def toolRoot (m : Machine) : Except Escape Path := do
  let override := (m.environment.lookup rootVariable).getD ""
  if override = "" then m.projectRoot
  else m.resolve (← expandHome m.environment (Path.ofString override))

/-- The path of the env file of the given name. -/
def envPath (m : Machine) (name : String) : Except Escape Path :=
  let p := Path.ofString name
  if p.isAbsolute then .ok p
  else m.toolRoot.map (·.join p)

end Machine

end Runbook
