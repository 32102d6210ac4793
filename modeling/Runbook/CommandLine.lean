import Runbook.Invocation

/-!
# Command lines

In front of an invocation stands the option scanner of the command line. It knows no options: it
keeps the words that look like options and stops at the first other word, which it keeps too, or at
a separator, which it drops. So a separator in front of the command is harmless, and one behind it
is left for the invocation to drop.

A run that the user aborts says so on standard error and exits with 1; any other escape is handed
on.
-/

namespace Runbook

/-- Writes to standard error, and leaves the run if that fails. -/
def mustTell (text : String) : Steps Unit := fun m ↦
  let (result, stream) := m.stderr.write text
  match result with
  | .ok () => .ok () { m with stderr := stream }
  | .error e => .error (.system e) { m with stderr := stream }

namespace CommandLine

/-- Whether a word looks like an option: a dash with something behind it. -/
def looksLikeOption (word : String) : Bool :=
  match word.toList with
  | '-' :: _ :: _ => true
  | _ => false

/-- The words that the option scanner hands on. -/
def scan : List String → List String
  | [] => []
  | word :: rest =>
    if word = Command.separatorWord then rest
    else if looksLikeOption word then word :: scan rest
    else word :: rest

/-- Says that the run is aborted, and gives the exit status for it. -/
def tellAbort : Steps Int := do
  mustTell "\n"
  mustTell "Aborted!\n"
  return 1

/-- Runs the words of a command line, and gives the exit status. -/
def run (words : List String) : Steps Int := fun m ↦
  match (Invocation.ofWords (scan words)).run m with
  | .ok status m => .ok status m
  | .error escape m => if escape.isAbort then tellAbort m else .error escape m

end CommandLine

end Runbook
