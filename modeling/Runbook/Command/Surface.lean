import Runbook.Text.Literal

/-!
# The public names of the command package

Clients reach the parts of the command package by name. The set of names is closed, and asking for
any other one is answered with a message that quotes it.
-/

namespace Runbook.Command

def packageName : String := "devtask.task_modules.commands"

/-- The names that clients may ask for. -/
def publicNames : List String :=
  ["COMMAND_REGISTRY", "CommandEntry", "available_names", "get_command", "list_commands",
   "render_help", "render_usage", "resolve_alias", "run_command"]

/-- Accepts a public name, and answers any other with the message that it is unknown. -/
def askFor (name : String) : Except String Unit :=
  if publicNames.contains name then .ok ()
  else .error ("module " ++ Text.quoted packageName ++ " has no attribute " ++ Text.quoted name)

end Runbook.Command
