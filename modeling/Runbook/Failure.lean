import Runbook.Command.Table
import Runbook.Path
import Runbook.Report
import Runbook.Request
import Runbook.SystemError

/-!
# Failures and escapes

A failure is an outcome: something that a run is prepared for, reports to the user and turns into an
exit status. There is one constructor for each cause, and `Failure.report` holds all the wording.

An escape is no outcome: the run is left where it stands. Escapes come from requests that the
operating system refuses to understand, from work that is nested too deep, from an interruption, or
from outside.
-/

namespace Runbook

/-- Why a file has no text. -/
inductive ReadError where
  /-- The system reports an error. -/
  | system (e : SystemError)
  /-- The file is not well-formed UTF-8. -/
  | notUtf8 (e : Text.Utf8.DecodeError)
deriving DecidableEq, Repr

namespace ReadError

def kind : ReadError → String
  | .system e => e.kind
  | .notUtf8 _ => "UnicodeDecodeError"

def message : ReadError → String
  | .system e => e.message
  | .notUtf8 e => e.message

def isNotFound : ReadError → Bool
  | .system e => e.isNotFound
  | .notUtf8 _ => false

def isPermission : ReadError → Bool
  | .system e => e.isPermission
  | .notUtf8 _ => false

end ReadError

/-- What can go wrong in a run. -/
inductive Failure where
  /-- No command has this name. -/
  | unknownCommand (name : String)
  /-- A tool is not on the search path. -/
  | missingTool (tool : String)
  /-- No regular file stands at the path of an env file. -/
  | noEnvFile (path : Path)
  /-- A file has no text. -/
  | unreadable (path : Path) (cause : ReadError)
  /-- A program does not start. -/
  | notStarted (request : Request) (cause : SystemError)
  /-- A directory is not created. -/
  | noDirectory (path : Path) (cause : SystemError)
  /-- A file is not written. -/
  | notWritten (path : Path) (cause : SystemError)
  /-- A text does not reach standard output. -/
  | stdoutFailed (text : String) (cause : SystemError)
  /-- A text does not reach standard error. -/
  | stderrFailed (text : String) (cause : SystemError)
deriving DecidableEq, Repr

namespace Failure

/-- The context that names a path. -/
def pathContext (path : Path) : List (String × Value) := [("path", .text path.toString)]

def words (ws : List String) : Value := .list (ws.map .text)

def report : Failure → Report
  | .unknownCommand name =>
    { step := "commands.dispatch"
      kind := "UnknownCommandError"
      message := "Unknown command: " ++ name
      context := [("command_name", .text name), ("available", words Command.selectors)] }
  | .missingTool tool =>
    { step := "io_ops.find_executable"
      kind := "MissingToolError"
      message := "Required command not found: " ++ tool
      context := [("tool", .text tool)] }
  | .noEnvFile path =>
    { step := "io_ops.read_env_file"
      kind := "FileNotFoundError"
      message := "Env file not found: " ++ path.toString
      context := pathContext path }
  | .unreadable path cause =>
    { step := "io_ops.read_file"
      kind := cause.kind
      message :=
        if cause.isNotFound then "File not found: " ++ path.toString
        else if cause.isPermission then "Permission denied: " ++ path.toString
        else "Error reading " ++ path.toString ++ ": " ++ cause.message
      context := pathContext path }
  | .notStarted request cause =>
    if cause.isNotFound then
      { step := "io_ops.run_process"
        kind := "SpawnError"
        message := "Command not found: " ++ request.program
        context := [("argv", words request.argv)] }
    else
      { step := "io_ops.run_process"
        kind := "SpawnError"
        message := "Failed to run " ++ request.commandLine ++ ": " ++ cause.message
        context := [("argv", words request.argv), ("os_error", .text cause.kind)] }
  | .noDirectory path cause =>
    { step := "io_ops.make_directory"
      kind := "DirectoryCreateError"
      message := "Failed to create directory " ++ path.toString ++ ": " ++ cause.message
      context := pathContext path }
  | .notWritten path cause =>
    { step := "io_ops.write_bytes"
      kind := "FileWriteError"
      message := "Failed to write " ++ path.toString ++ ": " ++ cause.message
      context := pathContext path }
  | .stdoutFailed text cause =>
    { step := "io_ops.write_stdout"
      kind := "StdoutWriteError"
      message := "Failed to write to stdout: " ++ cause.message
      context := [("original_message", .text text)] }
  | .stderrFailed text cause =>
    { step := "io_ops.write_stderr"
      kind := "StderrWriteError"
      message := "Failed to write to stderr: " ++ cause.message
      context := [("original_message", .text text)] }

def isNotFound : Failure → Bool
  | .noEnvFile _ => true
  | .unreadable _ cause => cause.isNotFound
  | _ => false

/-- Whether the failure calls for the help: the word in front selects no command. -/
def callsForHelp : Failure → Bool
  | .unknownCommand _ => true
  | _ => false

end Failure

/-- Why a run is left. -/
inductive Escape where
  /-- A path holds a NUL character. -/
  | nulInPath
  /-- The system reports an error where none is expected. -/
  | system (e : SystemError)
  /-- A home directory is asked for that is not known. -/
  | noHome
  /-- The links of a path lead in a circle. -/
  | linkCircle (path : Path)
  /-- Too many directories in a row are missing. -/
  | deepDirectories
  /-- Too many links lead to one another. -/
  | deepLinks
  /-- A command that has no program is asked for its argument vector. -/
  | noProgram (command : String)
  /-- The user interrupts the run. -/
  | interrupted (message : String)
  /-- The input ends where some is needed. -/
  | endOfInput (message : String)
  /-- Something else, known by its kind. -/
  | foreign (kind message : String)
deriving DecidableEq, Repr

namespace Escape

/-- A pipe is read after it has been closed. -/
def closedPipe : Escape := .foreign "ValueError" "read of closed file"

def message : Escape → String
  | .nulInPath => "embedded null byte"
  | .system e => e.message
  | .noHome => "Could not determine home directory."
  | .linkCircle path => "Symlink loop from " ++ Text.quoted path.toString
  | .deepDirectories => "maximum recursion depth exceeded while calling a Python object"
  | .deepLinks => "maximum recursion depth exceeded"
  | .noProgram command => "Command '" ++ command ++ "' has no program to run"
  | .interrupted message => message
  | .endOfInput message => message
  | .foreign _ message => message

/-- Whether the escape comes from the user's side of the terminal. -/
def isAbort : Escape → Bool
  | .interrupted _ => true
  | .endOfInput _ => true
  | _ => false

end Escape

end Runbook
