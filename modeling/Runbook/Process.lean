import Runbook.Machine

/-!
# Starting programs

A program is started with the values of its request laid over the inherited environment, and waited
for until it ends; an interrupt makes the run wait again. A wait that captures the output starts
from nothing: what a broken wait had read is gone, and after one that had closed the pipe the run is
left. A program that a signal ended counts as if it had ended with 128 and the signal's number.
-/

namespace Runbook

/-- A program that has ended. -/
structure Finished where
  /-- Its exit status. -/
  status : Int
  /-- Its output, if it was captured. -/
  output : List UInt8
deriving DecidableEq, Repr

/-- The exit status for the way in which a program ended. -/
def reportedStatus (status : Int) : Int := if status < 0 then 128 - status else status

namespace Machine

/-- The trace of an attempt to start a program. -/
def spawnOf (m : Machine) (r : Request) (child : Child) : Spawn :=
  { argv := r.argv
    environment := Keyed.overlay m.environment r.environment
    capture := r.capture
    waits := child.waits r.capture }

/-- The machine after an attempt to start a program, which takes the next child. -/
def afterSpawn (m : Machine) (r : Request) : Machine :=
  let child := m.children.headD .quiet
  { m.applyAll child.effects with
    children := m.children.tail
    spawns := m.spawns ++ [m.spawnOf r child] }

end Machine

/-- What becomes of an attempt to start a program and to wait for its end. -/
def Child.answer (r : Request) : Child → Except Escape (Except Failure Finished)
  | .exits status output interrupts _ =>
    (received r.capture output interrupts).map fun captured ↦
      .ok ⟨reportedStatus status, captured⟩
  | .refused number text =>
    .ok (.error (.notStarted r (.numbered number text (some r.program))))
  | .failed cause => .ok (.error (.notStarted r cause))
  | .escaped escape => .error escape

/-- Starts a program and waits for it. -/
def Request.start (r : Request) : Run Finished := fun m ↦
  match (m.children.headD .quiet).answer r with
  | .ok result => .ok result (m.afterSpawn r)
  | .error escape => .error escape (m.afterSpawn r)

end Runbook
