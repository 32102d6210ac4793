import Runbook.SystemError

/-!
# Faults

A machine may refuse an operation for reasons that the file system does not show: permissions, a
full or a failing disk. Such a refusal is planned as a fault, which names the operation, the path
exactly as it is written, and the error reported. A file that is written can fail at two points:
when it is opened, and later, when it has been emptied and perhaps a part of it has been written.

Asking whether something exists never meets a fault. In this a machine is kinder than an operating
system, where nothing can be asked about what lies below a directory that may not be searched.
-/

namespace Runbook

/-- The operations that can be refused. -/
inductive Operation where
  /-- Reading a file. -/
  | read
  /-- Creating a directory. -/
  | mkdir
  /-- Opening a file to write it. -/
  | write
  /-- Filling a file that has been opened, and emptied, with more than its first bytes. If there are
  no more, closing it is what fails. -/
  | fill (written : Nat)
deriving DecidableEq, Repr

/-- A refusal. -/
structure Fault where
  /-- The operation that is refused. -/
  operation : Operation
  /-- The written path for which it is refused. -/
  path : String
  /-- The number of the error reported. -/
  number : Int
  /-- The text of the error reported. -/
  text : String
deriving DecidableEq, Repr

/-- The error with which `operation` on the written path is refused, if it is. -/
def Fault.error? (faults : List Fault) (operation : Operation) (path : String) :
    Option SystemError :=
  (faults.find? fun f ↦ f.operation == operation && f.path == path).map fun f ↦
    .numbered f.number f.text (some path)

/-- What cuts the writing of a file short, if anything does: how many bytes are written before that,
and the error. The file is open by then, and the error does not name it. -/
def Fault.shortfall? (faults : List Fault) (path : String) : Option (Nat × SystemError) :=
  faults.findSome? fun f ↦
    match f.operation with
    | .fill written =>
      if f.path = path then some (written, .numbered f.number f.text none) else none
    | _ => none

end Runbook
