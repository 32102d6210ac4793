import Runbook.FileSystem.Content
import Runbook.FileSystem.Directory

/-!
# Effects on a file system

What something outside the program does to the files: it puts a file, a directory or a link
somewhere, creating the directories above, or removes what stands there. An effect that the file
system does not admit, such as a file below a file, changes nothing at its place.
-/

namespace Runbook

/-- A change of the files from outside. Paths start at the root. -/
inductive Effect where
  /-- A file with the given content, in place of an earlier one; links are followed. -/
  | file (path : Path) (content : List UInt8) (executable : Bool)
  /-- A directory. -/
  | directory (path : Path)
  /-- A symbolic link. -/
  | link (path : Path) (target : String)
  /-- The removal of a file or a whole tree. -/
  | remove (path : Path)
deriving DecidableEq, Repr

namespace FileSystem

/-- The file system with the directories down to a path. -/
def withDirectories (fs : FileSystem) (p : Path) : FileSystem := (fs.addDirectories [] [] p).1

def apply (fs : FileSystem) : Effect → FileSystem
  | .directory path => fs.withDirectories path
  | .file path content executable =>
    let fs := fs.withDirectories path.parent
    match fs.locateNew (path.route []) with
    | .error _ => fs
    | .ok here =>
      if fs.node? here = some .directory then fs else fs.put here (.file content executable)
  | .link path target =>
    let fs := fs.withDirectories path.parent
    match fs.place (path.route []) with
    | .error _ => fs
    | .ok here => (fs.removeTree here).put here (.link target)
  | .remove path =>
    match fs.place (path.route []) with
    | .error _ => fs
    | .ok here => fs.removeTree here

end FileSystem

end Runbook
