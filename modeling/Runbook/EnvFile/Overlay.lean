import Runbook.EnvFile.Values
import Runbook.Root

/-!
# Loading env files

An env file is loaded into an overlay, the values that a program started later will see on top of
the inherited environment. Loading is not meant to fail: a file that is absent or unreadable gives
an empty overlay, and what was found is told on standard error, line by line.
-/

namespace Runbook

/-- The values of an env file. -/
structure Overlay where
  /-- The written path of the file. -/
  path : String := ""
  /-- The values, empty if the file was not loaded. -/
  values : Keyed String := []
  /-- Whether the file was there and could be read. -/
  loaded : Bool := false
deriving DecidableEq, Repr

namespace Machine

/-- The text of a file, with uniform line breaks. -/
def readText (m : Machine) (p : Path) : Except Escape (Except Failure String) :=
  match Fault.error? m.faults .read p.toString with
  | some e => .ok (.error (.unreadable p (.system e)))
  | none =>
    if p.hasNul then .error .nulInPath
    else match m.files.read (m.route p) with
      | .error code => .ok (.error (.unreadable p (.system (code.about p.toString))))
      | .ok bytes =>
        match Text.Utf8.decode bytes with
        | .error e => .ok (.error (.unreadable p (.notUtf8 e)))
        | .ok cs => .ok (.ok (String.ofList (Text.unifyBreaks cs)))

/-- Whether a path names a regular file. A path with a NUL character names none. -/
def isFile (m : Machine) (p : Path) : Except Escape Bool :=
  if p.hasNul then .ok false
  else match m.files.isFile (m.route p) with
    | .error code => .error (.system (code.about p.toString))
    | .ok answer => .ok answer

/-- The text of an env file. Whatever is no regular file counts as not there. -/
def readEnvText (m : Machine) (p : Path) : Except Escape (Except Failure String) :=
  match m.isFile p with
  | .error escape => .error escape
  | .ok false => .ok (.error (.noEnvFile p))
  | .ok true => m.readText p

/-- The line about an env file that has no text. -/
def skippedLine (path : String) (f : Failure) : String :=
  if f.isNotFound then "(env file not found, skipping): " ++ path
  else "(env file unreadable, skipping): " ++ f.report.message

/-- The overlay of an env file, and the lines that tell about it. -/
def envOverlay (m : Machine) (name : String) : Except Escape (Overlay × List String) := do
  let p ← m.envPath name
  let path := p.toString
  match ← m.readEnvText p with
  | .error f => return ({ path }, [skippedLine path f])
  | .ok text =>
    let contents := EnvFile.Contents.ofText m.environment text
    return ({ path, values := contents.values, loaded := true },
      ("Loading env: " ++ path) :: contents.complaints ++ contents.warnings path)

end Machine

/-- Loads the env file of the given name. -/
def Overlay.load (name : String) : Steps Overlay := fun m ↦
  match m.envOverlay name with
  | .error escape => .error escape m
  | .ok (overlay, lines) => (do lines.forM fun line ↦ tell (line ++ "\n"); return overlay) m

end Runbook
