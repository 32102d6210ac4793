import Runbook.Command.Table

/-!
# The help text

A usage line, one block for each group of commands, examples, and how to ask for help. A command
stands in its group in table order; the help command itself is in no group that is shown.
-/

namespace Runbook.Command

def programName : String := "devtask"

/-- The groups that the help shows, in order. -/
def shownCategories : List Category := [.app, .database, .docker, .quality]

/-- The width that command names are padded to. -/
def labelWidth : Nat := 26

def examples : List String :=
  ["dev -- --bin api --features tracing", "db:migration:create add_users"]

/-- The text with spaces after it up to the given number of characters. -/
def padRight (width : Nat) (s : String) : String :=
  s ++ String.ofList (List.replicate (width - s.length) ' ')

def usage (prog : String) : String := "Usage: " ++ prog ++ " <command> [-- <args...>]"

/-- What the help calls the command: its name, and its hint if it has one. -/
def Entry.label (e : Entry) : String :=
  if e.usageHint = "" then e.name else e.name ++ " " ++ e.usageHint

def Entry.helpLine (e : Entry) : String :=
  "  " ++ padRight labelWidth e.label ++ " " ++ e.description

/-- The block of a group, with an empty line after it. -/
def categoryBlock (c : Category) : List String :=
  (c.title ++ ":") :: (table.filter (·.category = c)).map Entry.helpLine ++ [""]

def help (prog : String) : String :=
  let lines := [usage prog, ""] ++ shownCategories.flatMap categoryBlock ++ ["Examples:"] ++
    examples.map (fun e ↦ "  " ++ prog ++ " " ++ e) ++
    ["", "Help: " ++ prog ++ " help | -h | --help"]
  "\n".intercalate lines ++ "\n"

end Runbook.Command
