import Runbook.FileSystem.Basic
import Runbook.SystemError

/-!
# Walking paths

How the system finds what a path names. It takes one name after another, from left to right: an
empty name or a dot stays, a double dot goes up, a link is replaced by the names of its target, and
any other name goes down into the directory reached so far. The last name need not lead to
anything, so that the place of a new file can be asked for; every name before it has to lead to a
directory.

Links can lead in a circle, so a walk has a budget of links. It ends because each step either uses
up a name or trades one link of the budget for the names of a target.
-/

namespace Runbook

def maxPathSize : Nat := 4095

/-- A way through a file system: where it starts, and the names that lead on. -/
structure Route where
  /-- The directory in which it starts. -/
  start : Location
  /-- The names, among them empty ones, dots and double dots. -/
  names : List String
  /-- The number of bytes of the written path. -/
  size : Nat
deriving DecidableEq, Repr

namespace Route

/-- The route that a written path means in the directory `here`. -/
def ofString (here : Location) (s : String) : Route :=
  ⟨if Path.anchorOf s.toList = .relative then here else [], Path.namesOf s, s.utf8ByteSize⟩

/-- Whether the written path has too many bytes. What it leads to is then not even looked for. -/
def isLong (r : Route) : Bool := maxPathSize < r.size

end Route

/-- The route that a path means in the directory `here`. -/
def Path.route (here : Location) (p : Path) : Route :=
  ⟨if p.isAbsolute then [] else here, p.names, p.toString.utf8ByteSize⟩

/-- Whether the name has more than 255 bytes, the most that a name may have. -/
def isLongName (name : String) : Bool := 255 < name.utf8ByteSize

namespace FileSystem

/-- The number of links that one walk may follow. -/
def linkBudget : Nat := 40

/-- How deep work on one path may be nested: directories that wait for the ones above them to be
created, or links that wait for the ones in their targets to be resolved. -/
def depthLimit : Nat := 980

/-- Follows `names` from the directory `here`, below which `tree` stands, over at most `budget`
links. If `create` is set, the walk is for the place of a file that may have to be created, and no
slash may follow the last name. From a removed directory the only way leads up. -/
def walkIn (fs : FileSystem) (create : Bool) (budget : Nat) (here : Location) (tree : Trie Node) :
    (names : List String) → Except ErrorCode Location
  | [] => .ok here
  | name :: rest =>
    if name = "" ∨ name = "." then fs.walkIn create budget here tree rest
    else if name = ".." then fs.walkIn create budget here.tail (fs.subtree here.tail) rest
    else if create && rest.contains "" && rest.all (· = "") then .error .isDirectory
    else if here.isRemoved then .error .notFound
    else if isLongName name then .error .nameTooLong
    else match tree.value? name with
      | none => if rest = [] then .ok (name :: here) else .error .notFound
      | some .directory => fs.walkIn create budget (name :: here) (tree.subtrie name) rest
      | some (.file ..) => if rest = [] then .ok (name :: here) else .error .notDirectory
      | some (.link target) =>
        match budget with
        | 0 => .error .tooManyLinks
        | budget + 1 =>
          if target = "" then .error .notFound
          else
            let route := Route.ofString here target
            fs.walkIn create budget route.start (fs.subtree route.start) (route.names ++ rest)
termination_by names => (budget, names.length)

/-- Follows `names` from the directory `here`. -/
def walk (fs : FileSystem) (create : Bool) (budget : Nat) (here : Location)
    (names : List String) : Except ErrorCode Location :=
  fs.walkIn create budget here (fs.subtree here) names

@[simp] theorem walk_nil (fs : FileSystem) (create : Bool) (budget : Nat) (here : Location) :
    fs.walk create budget here [] = .ok here := by simp [walk, walkIn]

/-- One step of a walk, told by what stands at the next place. -/
theorem walk_cons (fs : FileSystem) (create : Bool) (budget : Nat) (here : Location)
    (name : String) (rest : List String) :
    fs.walk create budget here (name :: rest) =
      if name = "" ∨ name = "." then fs.walk create budget here rest
      else if name = ".." then fs.walk create budget here.tail rest
      else if create && rest.contains "" && rest.all (· = "") then .error .isDirectory
      else if here.isRemoved then .error .notFound
      else if isLongName name then .error .nameTooLong
      else match fs.node? (name :: here) with
        | none => if rest = [] then .ok (name :: here) else .error .notFound
        | some .directory => fs.walk create budget (name :: here) rest
        | some (.file ..) => if rest = [] then .ok (name :: here) else .error .notDirectory
        | some (.link target) =>
          match budget with
          | 0 => .error .tooManyLinks
          | budget + 1 =>
            if target = "" then .error .notFound
            else
              let route := Route.ofString here target
              fs.walk create budget route.start (route.names ++ rest) := by
  by_cases hname : name = "" ∨ name = "."
  · simp only [walk, walkIn, hname, if_true]
  · have hremoved : name ≠ removedName := fun e ↦ hname (.inl e)
    simp only [walk, walkIn, hname, if_false, node?_cons, hremoved, subtree_cons]

/-- The place that a route leads to, whether or not anything stands there. -/
def locate (fs : FileSystem) (r : Route) : Except ErrorCode Location :=
  if r.isLong then .error .nameTooLong else fs.walk false linkBudget r.start r.names

/-- The place that a route leads to, for a file to be written there. -/
def locateNew (fs : FileSystem) (r : Route) : Except ErrorCode Location :=
  if r.isLong then .error .nameTooLong else fs.walk true linkBudget r.start r.names

/-- What stands at the end of a route. -/
def nodeAt (fs : FileSystem) (r : Route) : Except ErrorCode Node :=
  match fs.locate r with
  | .error e => .error e
  | .ok here =>
    match fs.node? here with
    | none => .error .notFound
    | some node => .ok node

/-- The answer to a yes-or-no question about a node, where nothing means no. Of the ways in which
a walk fails, only an overlong name or path is an error here. -/
def ask (question : Node → Bool) : Except ErrorCode Node → Except ErrorCode Bool
  | .ok node => .ok (question node)
  | .error .nameTooLong => .error .nameTooLong
  | .error _ => .ok false

def exists? (fs : FileSystem) (r : Route) : Except ErrorCode Bool :=
  ask (fun _ ↦ true) (fs.nodeAt r)

def isFile (fs : FileSystem) (r : Route) : Except ErrorCode Bool := ask Node.isFile (fs.nodeAt r)

def isDirectory (fs : FileSystem) (r : Route) : Except ErrorCode Bool :=
  ask Node.isDirectory (fs.nodeAt r)

/-- The place that the last name of a route means, without following a link that stands there. The
names before the last lead to its directory. -/
def place (fs : FileSystem) (r : Route) : Except ErrorCode Location :=
  if r.isLong then .error .nameTooLong
  else match r.names.getLast? with
  | none => .error .exists
  | some name =>
    match fs.walk false linkBudget r.start r.names.dropLast with
    | .error e => .error e
    | .ok here =>
      match fs.node? here with
      | none => .error .notFound
      | some .directory =>
        if name = "" ∨ name = "." ∨ name = ".." then .error .exists
        else if here.isRemoved then .error .notFound
        else if isLongName name then .error .nameTooLong
        else .ok (name :: here)
      | some _ => .error .notDirectory

end FileSystem

end Runbook
