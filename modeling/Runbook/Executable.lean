import Runbook.Machine

/-!
# Finding executables

A tool that is named without a slash is looked for in the directories of the search path, in order,
and the first that holds an executable file of that name wins. An empty directory name means the
working directory. A name with a slash is a path already, and only checked. An environment without a
search path gets that of the system; one whose search path is empty finds nothing.
-/

namespace Runbook

def searchPathVariable : String := "PATH"

/-- The search path of the system, which is that of a Linux machine. -/
def systemSearchPath : List String := ["/bin", "/usr/bin"]

/-- The written path of `name` in a directory of the search path. -/
def searchCandidate (directory name : String) : String :=
  if directory = "" ∨ directory.toList.getLast? = some '/' then directory ++ name
  else directory ++ "/" ++ name

namespace Machine

/-- Whether an executable file stands at the end of a written path. -/
def isExecutable (m : Machine) (s : String) : Bool :=
  s != "" && !s.toList.contains '\x00' &&
    match m.files.nodeAt (Route.ofString m.workingDirectory s) with
    | .ok (.file _ executable) => executable
    | _ => false

/-- The directories of the search path, in order. -/
def searchPath (m : Machine) : List String :=
  match m.environment.lookup searchPathVariable with
  | none => systemSearchPath
  | some "" => []
  | some dirs => (Text.fields ':' dirs.toList).map String.ofList

def findTool? (m : Machine) (name : String) : Option String :=
  if name.toList.contains '/' then
    if m.isExecutable name then some name else none
  else (m.searchPath.map (searchCandidate · name)).find? m.isExecutable

/-- The written path of the executable of the given name, or the failure that there is none. -/
def findTool (m : Machine) (name : String) : Except Failure String :=
  match m.findTool? name with
  | some path => .ok path
  | none => .error (.missingTool name)

/-- The failure of a command whose required tool is not there. -/
def checkTool (m : Machine) (e : Command.Entry) : Except Failure Unit :=
  match e.requiresTool with
  | none => .ok ()
  | some tool => (m.findTool tool).map fun _ ↦ ()

end Machine

end Runbook
