/-!
# Commands

A command is one row of the command table: what it is called, how it is shown in the help, what it
runs, and what has to hold before it runs. The argument vector of a command is fixed by its row up
to the words that follow the command on the command line, and those count only for a command that
forwards them.
-/

namespace Runbook.Command

/-- The groups of the help, and the one that it leaves out. -/
inductive Category where
  /-- Running and building the application. -/
  | app
  /-- Database migrations. -/
  | database
  /-- Containers. -/
  | docker
  /-- Checks, lints and formatting. -/
  | quality
  /-- The help itself. -/
  | help
deriving DecidableEq, Repr

def Category.title : Category → String
  | .app => "App"
  | .database => "Database (Diesel)"
  | .docker => "Docker"
  | .quality => "Code Quality"
  | .help => "Help"

/-- What running a command does. -/
inductive Action where
  /-- Starts the program and hands its exit status on. -/
  | exec
  /-- Writes the help. -/
  | help
  /-- Starts the program and stores its output as the database schema. -/
  | schema
deriving DecidableEq, Repr

/-- One row of the command table. -/
structure Entry where
  /-- The word that selects the command. -/
  name : String
  /-- Its line in the help. -/
  description : String
  /-- Its group in the help. -/
  category : Category
  /-- What running it does. -/
  action : Action := .exec
  /-- The program it starts, if it starts one. -/
  program : Option String := none
  /-- The arguments that always come first. -/
  fixedArgs : List String := []
  /-- Whether a separator follows the fixed arguments. -/
  separator : Bool := false
  /-- Whether the words after the command are passed on. -/
  forwardsArgs : Bool := false
  /-- The env file loaded before the program starts. -/
  envFile : Option String := none
  /-- The tool that has to be on the search path. -/
  requiresTool : Option String := none
  /-- What the help shows after the name. -/
  usageHint : String := ""
deriving DecidableEq, Repr

/-- The word that sets options apart from what follows. -/
def separatorWord : String := "--"

namespace Entry

def spawns (e : Entry) : Bool := e.action != .help

/-- The arguments for the words that followed the command, in order. -/
def arguments (e : Entry) (trailing : List String) : List String :=
  e.fixedArgs ++ (if e.separator then [separatorWord] else []) ++
    (if e.forwardsArgs then trailing else [])

/-- The whole argument vector, or `none` if there is no program to start. -/
def argv? (e : Entry) (trailing : List String) : Option (List String) :=
  e.program.map (· :: e.arguments trailing)

theorem arguments_of_not_forwardsArgs {e : Entry} (h : e.forwardsArgs = false)
    (trailing : List String) :
    e.arguments trailing = e.fixedArgs ++ (if e.separator then [separatorWord] else []) := by
  simp [arguments, h]

end Entry

end Runbook.Command
