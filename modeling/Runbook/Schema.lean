import Runbook.Process

/-!
# Storing the database schema

The schema is what a program writes to its output. Its directory is created first, then the program
runs with its output captured, and then the output is stored as it is, whatever the exit status, as
a shell's redirection would do.
-/

namespace Runbook

/-- Creates the directory of a path and the missing directories above it. -/
def createDirectory (p : Path) : Run Path := fun m ↦
  if p.hasNul then .error .nulInPath m
  else if FileSystem.depthLimit < m.files.missingDepth m.faults m.workingDirectory p then
    .error .deepDirectories m
  else
    let (files, result) := m.files.addDirectories m.faults m.workingDirectory p
    .ok ((result.mapError (.noDirectory p)).map fun _ ↦ p) { m with files }

/-- The part of a file's content that is written, and whether writing ends well. -/
def Fault.portion (faults : List Fault) (path : String) (content : List UInt8) :
    List UInt8 × Except SystemError Unit :=
  match shortfall? faults path with
  | none => (content, .ok ())
  | some (written, e) => (content.take written, .error e)

/-- Writes a file. It is emptied when it is opened, so a failure after that leaves a part of the
content. -/
def writeFile (p : Path) (content : List UInt8) : Run Path := fun m ↦
  match Fault.error? m.faults .write p.toString with
  | some e => .ok (.error (.notWritten p e)) m
  | none =>
    if p.hasNul then .error .nulInPath m
    else
      let (part, verdict) := Fault.portion m.faults p.toString content
      match m.files.write (m.route p) part with
      | .error code => .ok (.error (.notWritten p (code.about p.toString))) m
      | .ok files =>
        .ok ((verdict.mapError (.notWritten p)).map fun _ ↦ p) { m with files }

/-- Runs a program and stores its output as the schema. -/
def storeSchema (r : Request) : Run Int := do
  discard <| createDirectory (Path.ofString Command.schemaDirectory)
  let finished ← Request.start { r with capture := true }
  discard <| writeFile (Path.ofString Command.schemaFile) finished.output
  return finished.status

end Runbook
