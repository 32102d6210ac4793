import Runbook.CommandLine

/-!
# The command line

Runs the words of the command line on a machine that holds nothing: no files, no environment, and
programs that end well at once. What the run writes goes to the standard streams, and its exit
status is handed on, reduced to the byte that a system keeps of it. A run that is left where it
stands counts as failed, and says why.
-/

namespace Runbook

/-- The byte that a system keeps of an exit status. -/
def statusByte (status : Int) : UInt32 := UInt32.ofNat (status % 256).toNat

end Runbook

def main (args : List String) : IO UInt32 := do
  let (status, machine, farewell) :=
    match Runbook.CommandLine.run args {} with
    | .ok status machine => (status, machine, "")
    | .error escape machine => (1, machine, escape.message ++ "\n")
  (← IO.getStdout).putStr machine.stdout.written
  (← IO.getStderr).putStr (machine.stderr.written ++ farewell)
  return Runbook.statusByte status
