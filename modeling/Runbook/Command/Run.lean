import Runbook.Command.Help
import Runbook.EnvFile.Overlay
import Runbook.Executable
import Runbook.Schema

/-!
# Running a command

What a command does, from its name to its exit status. The tool that it requires is looked for
first, then its env file is loaded, and then its program is started; the exit status is the
program's own. The help is written without starting anything.

The order matters: a missing tool is reported before the env file is touched, and nothing that the
env file holds can keep the program from being started.
-/

namespace Runbook.Command

namespace Entry

def checkTool (e : Entry) : Run Unit := fun m ↦ .ok (m.checkTool e) m

/-- The overlay of the command: that of its env file, or the empty one if it has none. -/
def overlay (e : Entry) : Steps Overlay :=
  match e.envFile with
  | none => return {}
  | some name => Overlay.load name

/-- The request that starts the program of the command. -/
def request (e : Entry) (overlay : Overlay) (trailing : List String) : Except Escape Request :=
  match e.program with
  | none => .error (.noProgram e.name)
  | some program =>
    .ok { program, arguments := e.arguments trailing, environment := overlay.values }

/-- Starts the program of the command and hands its exit status on. -/
def start (e : Entry) (overlay : Overlay) (trailing : List String) : Run Int :=
  match e.request overlay trailing with
  | .error escape => fun m ↦ .error escape m
  | .ok r =>
    match e.action with
    | .schema => storeSchema r
    | _ => do return (← r.start).status

/-- Runs the command with the words that followed it. -/
def run (e : Entry) (trailing : List String) : Run Int :=
  if e.spawns then do
    e.checkTool
    let overlay ← e.overlay
    e.start overlay trailing
  else do
    printOut (help programName)
    return 0

end Entry

/-- Runs the command that a word selects. -/
def run (name : String) (trailing : List String) : Run Int :=
  match find? name with
  | none => throw (.unknownCommand name)
  | some e => e.run trailing

end Runbook.Command
