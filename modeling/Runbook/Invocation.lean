import Runbook.Command.Run

/-!
# Invocations

An invocation is a command and the words that follow it. A list of words is read as one by taking
its first word for the command and dropping one separator right behind it; no words at all ask for
the help.

A failure becomes a message on standard error and exit status 1; an unknown command gets the help in
addition. Whatever becomes of those messages, the exit status stays.
-/

namespace Runbook

/-- A command and the words that follow it. -/
structure Invocation where
  /-- The word that selects the command. -/
  command : String
  /-- The words for the command. -/
  trailing : List String
deriving DecidableEq, Repr

/-- Reports a failure, and gives the exit status for it. -/
def Failure.announce (f : Failure) : Steps Int := do
  note ("dispatch failed: " ++ f.report.line)
  tell (f.report.message ++ "\n")
  if f.callsForHelp then
    tell "\n"
    tell (Command.help Command.programName)
  return 1

namespace Invocation

def defaultCommand : String := "help"

def dropSeparator : List String → List String
  | [] => []
  | word :: rest => if word = Command.separatorWord then rest else word :: rest

def ofWords : List String → Invocation
  | [] => ⟨defaultCommand, []⟩
  | command :: trailing => ⟨command, dropSeparator trailing⟩

/-- Runs an invocation, and gives its exit status. -/
def run (i : Invocation) : Steps Int := do
  match ← (Command.run i.command i.trailing).run with
  | .ok status => return status
  | .error f => f.announce

end Invocation

end Runbook
