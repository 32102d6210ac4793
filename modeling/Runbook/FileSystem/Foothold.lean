import Runbook.FileSystem.Basic

/-!
# Standing in a directory

A process stands in its working directory, and goes on standing in it when the directory is removed,
even if another one takes its place. What is left of a location is found name by name: as far as
directories still stand at it, the names stay, and every other name is given up. Since the names are
given up for good, a place that is lost is not found again.
-/

namespace Runbook.FileSystem

/-- Where a process stands that stood at a location before the files changed. -/
def foothold (fs : FileSystem) : Location → Location
  | [] => []
  | name :: above =>
    if name ≠ removedName ∧ fs.node? (name :: above) = some .directory then name :: above
    else removedName :: fs.foothold above

theorem length_foothold (fs : FileSystem) (here : Location) :
    (fs.foothold here).length = here.length := by
  induction here with
  | nil => rfl
  | cons name above ih =>
    rw [foothold]
    split
    · rfl
    · simp [ih]

/-- A process always stands in a directory. -/
theorem node?_foothold (fs : FileSystem) (here : Location) :
    fs.node? (fs.foothold here) = some .directory := by
  cases here with
  | nil => simp [foothold]
  | cons name above =>
    rw [foothold]
    split
    · next h => exact h.2
    · simp [node?, Location.isRemoved]

/-- A place that is lost stays lost, whatever is created later. -/
theorem isRemoved_foothold (fs : FileSystem) {here : Location} (h : here.isRemoved = true) :
    (fs.foothold here).isRemoved = true := by
  cases here with
  | nil => simp [Location.isRemoved] at h
  | cons name above =>
    have hname : name = removedName := by simpa [Location.isRemoved] using h
    simp [foothold, hname, Location.isRemoved]

end Runbook.FileSystem
