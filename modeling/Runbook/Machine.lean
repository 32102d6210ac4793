import Runbook.Failure
import Runbook.FileSystem.Effect
import Runbook.FileSystem.Foothold

/-!
# Machines

A run acts on a machine: the files, the process environment, the working directory, the two output
streams, and the programs that will be started. What a started program will do is laid down
beforehand, as a queue of children, so that a run is a function of the machine it starts on. The
machine also keeps a trace of what can be observed from outside: the programs started and the
messages for the debug journal.

The working directory may be removed from outside. The machine then stands in a directory that no
path leads to any more, until it changes to another one.
-/

namespace Runbook

/-- How a stream takes what is written to it. -/
inductive StreamState where
  /-- Everything arrives. -/
  | sound
  /-- Writing fails, and nothing arrives. -/
  | writeFails
  /-- Writing succeeds and flushing fails. The text has arrived by then. -/
  | flushFails
deriving DecidableEq, Repr

/-- An output stream. -/
structure Stream where
  /-- How it takes what is written. -/
  state : StreamState := .sound
  /-- What has arrived. -/
  written : String := ""
deriving DecidableEq, Repr

/-- Writes a text and flushes the stream. -/
def Stream.write (s : Stream) (text : String) : Except SystemError Unit × Stream :=
  match s.state with
  | .sound => (.ok (), { s with written := s.written ++ text })
  | .writeFails => (.error ErrorCode.brokenPipe.plain, s)
  | .flushFails => (.error ErrorCode.noSpace.plain, { s with written := s.written ++ text })

/-- An interrupt that breaks the wait for a program. What it costs is said for a program whose
output is captured; that is read from a pipe to its end, and then the end of the program is waited
for. -/
inductive Interrupt where
  /-- It comes while the pipe is read. What this wait has read by then, so many bytes, is given
  up. -/
  | reading (lost : Nat)
  /-- It comes after the pipe has been read to its end and closed. -/
  | closed
deriving DecidableEq, Repr

/-- So many interrupts, none of which costs anything. -/
instance : Coe Nat (List Interrupt) := ⟨fun k ↦ List.replicate k (.reading 0)⟩

/-- What starting a program leads to. -/
inductive Child where
  /-- It starts, changes files, writes to its output, and ends with a status, negative if a signal
  ended it. The first waits for it are broken by interrupts. -/
  | exits (status : Int) (output : List UInt8) (interrupts : List Interrupt)
    (effects : List Effect)
  /-- The system refuses to start it, with the number and the text of an error. -/
  | refused (number : Int) (text : String)
  /-- It does not start, for a reason that is known by its kind only. -/
  | failed (cause : SystemError)
  /-- The attempt to start it leaves the run. -/
  | escaped (escape : Escape)
deriving DecidableEq, Repr

namespace Child

/-- A program that does nothing and ends well. -/
def quiet : Child := .exits 0 [] [] []

/-- The changes of files that happen when the program starts. -/
def effects : Child → List Effect
  | .exits _ _ _ effects => effects
  | _ => []

/-- Waits for a program until a wait is not broken by an interrupt, after `waits` waits that were.
Gives what the last wait hands over, or the escape that it ends in, and how often the program was
waited for. -/
def await (capture : Bool) :
    (output : List UInt8) → (interrupts : List Interrupt) → (waits : Nat) →
      Except Escape (List UInt8) × Nat
  | output, [], waits => (.ok (if capture then output else []), waits + 1)
  | output, .reading lost :: rest, waits => await capture (output.drop lost) rest (waits + 1)
  | output, .closed :: rest, waits =>
    -- The next wait reads the pipe again, if there is one.
    if capture then (.error .closedPipe, waits + 2) else await capture output rest (waits + 1)

/-- What a run is handed over of the output of a program, or the escape by which it is left. -/
def received (capture : Bool) (output : List UInt8) (interrupts : List Interrupt) :
    Except Escape (List UInt8) :=
  (await capture output interrupts 0).1

/-- How often a run waits for the program. One that does not start is not waited for. -/
def waits (capture : Bool) : Child → Nat
  | .exits _ output interrupts _ => (await capture output interrupts 0).2
  | _ => 0

end Child

/-- An attempt to start a program. -/
structure Spawn where
  /-- The argument vector. -/
  argv : List String
  /-- The whole environment of the program. -/
  environment : Keyed String
  /-- Whether its output is captured. -/
  capture : Bool
  /-- How often the run waits for it. -/
  waits : Nat
deriving DecidableEq, Repr

/-- All that a run acts on. -/
structure Machine where
  /-- The files. -/
  files : FileSystem := {}
  /-- The process environment. -/
  environment : Keyed String := []
  /-- The working directory. -/
  workingDirectory : Location := []
  /-- Where the program itself lies. -/
  programFile : Path := ⟨.root, []⟩
  /-- What the next programs will do, in order. -/
  children : List Child := []
  /-- The operations that are refused. -/
  faults : List Fault := []
  /-- Standard output. -/
  stdout : Stream := {}
  /-- Standard error. -/
  stderr : Stream := {}
  /-- The programs started so far. -/
  spawns : List Spawn := []
  /-- The debug journal. -/
  journal : List String := []
deriving DecidableEq, Repr

/-- A computation on a machine that can only be left by an escape. -/
abbrev Steps : Type → Type := EStateM Escape Machine

/-- A computation on a machine that can fail. -/
abbrev Run : Type → Type := ExceptT Failure Steps

namespace Machine

def route (m : Machine) (p : Path) : Route := p.route m.workingDirectory

/-- The machine with another working directory, which has to be there. The path is taken as it is
written: a complaint shows it so, and an empty one leads nowhere. -/
def chdir (m : Machine) (path : String) : Except Escape Machine :=
  if path.toList.contains '\x00' then .error .nulInPath
  else if path = "" then .error (.system (ErrorCode.notFound.about path))
  else match m.files.locate (Route.ofString m.workingDirectory path) with
    | .error code => .error (.system (code.about path))
    | .ok here =>
      match m.files.node? here with
      | some .directory => .ok { m with workingDirectory := here }
      | some _ => .error (.system (ErrorCode.notDirectory.about path))
      | none => .error (.system (ErrorCode.notFound.about path))

/-- The machine after something outside the program has changed its files. -/
def apply (m : Machine) (e : Effect) : Machine :=
  let files := m.files.apply e
  { m with files, workingDirectory := files.foothold m.workingDirectory }

def applyAll (m : Machine) (effects : List Effect) : Machine := effects.foldl apply m

/-- The machine with nothing observed yet. -/
def withoutTraces (m : Machine) : Machine :=
  { m with
    stdout := { m.stdout with written := "" }
    stderr := { m.stderr with written := "" }
    spawns := []
    journal := [] }

end Machine

/-! ## Output -/

def printErr (text : String) : Run Unit := fun m ↦
  let (result, stream) := m.stderr.write text
  .ok (result.mapError (.stderrFailed text)) { m with stderr := stream }

def printOut (text : String) : Run Unit := fun m ↦
  let (result, stream) := m.stdout.write text
  .ok (result.mapError (.stdoutFailed text)) { m with stdout := stream }

/-- Writes to standard error, whether or not it arrives. -/
def tell (text : String) : Steps Unit := fun m ↦
  .ok () { m with stderr := (m.stderr.write text).2 }

def note (message : String) : Steps Unit := fun m ↦
  .ok () { m with journal := m.journal ++ [message] }

end Runbook
