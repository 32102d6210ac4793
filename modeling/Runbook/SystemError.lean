import Runbook.Text.Literal

/-!
# Errors of the operating system

An operating system reports an error by its number, with a text and the name of the file that it is
about. Errors of some numbers have a kind of their own; all others share one.
-/

namespace Runbook

/-- The errors that the file system itself gives rise to. -/
inductive ErrorCode where
  /-- Nothing has that name. -/
  | notFound
  /-- Something has that name already. -/
  | exists
  /-- A name that is passed through is no directory. -/
  | notDirectory
  /-- The file to be read or written is a directory. -/
  | isDirectory
  /-- A name or a whole path has more bytes than it may have. -/
  | nameTooLong
  /-- The way leads over too many symbolic links. -/
  | tooManyLinks
  /-- The reader at the other end of the stream is gone. -/
  | brokenPipe
  /-- The device behind the stream is full. -/
  | noSpace
deriving DecidableEq, Repr

def ErrorCode.number : ErrorCode → Int
  | .notFound => 2
  | .exists => 17
  | .notDirectory => 20
  | .isDirectory => 21
  | .nameTooLong => 36
  | .tooManyLinks => 40
  | .brokenPipe => 32
  | .noSpace => 28

def ErrorCode.text : ErrorCode → String
  | .notFound => "No such file or directory"
  | .exists => "File exists"
  | .notDirectory => "Not a directory"
  | .isDirectory => "Is a directory"
  | .nameTooLong => "File name too long"
  | .tooManyLinks => "Too many levels of symbolic links"
  | .brokenPipe => "Broken pipe"
  | .noSpace => "No space left on device"

/-- An error as a program gets to see it. -/
inductive SystemError where
  /-- An error with a number, and the file it is about. -/
  | numbered (number : Int) (text : String) (subject : Option String)
  /-- An error that is known by its kind and its text only. -/
  | named (kind text : String)
deriving DecidableEq, Repr

def kindOfNumber (number : Int) : String :=
  if number = 1 ∨ number = 13 then "PermissionError"
  else if number = 2 then "FileNotFoundError"
  else if number = 3 then "ProcessLookupError"
  else if number = 4 then "InterruptedError"
  else if number = 10 then "ChildProcessError"
  else if number = 11 then "BlockingIOError"
  else if number = 17 then "FileExistsError"
  else if number = 20 then "NotADirectoryError"
  else if number = 21 then "IsADirectoryError"
  else if number = 32 then "BrokenPipeError"
  else if number = 110 then "TimeoutError"
  else "OSError"

namespace SystemError

def kind : SystemError → String
  | .numbered number _ _ => kindOfNumber number
  | .named kind _ => kind

/-- The message of an error: its number, its text, and the quoted name of the file. -/
def message : SystemError → String
  | .numbered number text none => "[Errno " ++ toString number ++ "] " ++ text
  | .numbered number text (some subject) =>
    "[Errno " ++ toString number ++ "] " ++ text ++ ": " ++ Text.quoted subject
  | .named _ text => text

def isNotFound (e : SystemError) : Bool := e.kind == "FileNotFoundError"

def isPermission (e : SystemError) : Bool := e.kind == "PermissionError"

end SystemError

/-- The error about the file of the given name. -/
def ErrorCode.about (code : ErrorCode) (subject : String) : SystemError :=
  .numbered code.number code.text (some subject)

/-- The error about no file in particular. -/
def ErrorCode.plain (code : ErrorCode) : SystemError := .numbered code.number code.text none

end Runbook
