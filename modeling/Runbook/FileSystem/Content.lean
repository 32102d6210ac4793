import Runbook.FileSystem.Walk

/-!
# Reading and writing files

Both follow links to the end. Writing replaces the content of a file and keeps whether it can be
executed; where nothing stands yet, a file is created in a directory that has to be there.
-/

namespace Runbook.FileSystem

def read (fs : FileSystem) (r : Route) : Except ErrorCode (List UInt8) :=
  match fs.nodeAt r with
  | .error e => .error e
  | .ok (.file content _) => .ok content
  | .ok .directory => .error .isDirectory
  | .ok (.link _) => .error .notFound

def write (fs : FileSystem) (r : Route) (content : List UInt8) : Except ErrorCode FileSystem :=
  match fs.locateNew r with
  | .error e => .error e
  | .ok here =>
    match fs.node? here with
    | some .directory => .error .isDirectory
    | some (.file _ executable) => .ok (fs.put here (.file content executable))
    | _ =>
      if fs.node? here.tail = some .directory then .ok (fs.put here (.file content false))
      else .error .notFound

/-- Whether a file can be opened for writing does not depend on what is written. -/
theorem write_eq_error {fs : FileSystem} {r : Route} {content : List UInt8} {code : ErrorCode}
    (h : fs.write r content = .error code) (other : List UInt8) :
    fs.write r other = .error code := by
  rw [write] at h ⊢
  revert h
  rcases fs.locateNew r with e | here
  · exact id
  · dsimp only
    rcases fs.node? here with _ | ⟨bytes, executable⟩ | _ | target
    · dsimp only
      split
      · rintro ⟨⟩
      · exact id
    · rintro ⟨⟩
    · exact id
    · dsimp only
      split
      · rintro ⟨⟩
      · exact id

end Runbook.FileSystem
