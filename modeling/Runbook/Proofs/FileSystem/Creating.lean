import Runbook.Proofs.FileSystem.Growth
import Runbook.Proofs.Frames

/-!
# When a directory is created

An attempt to create the directory of a path ends in one of two ways. Either the path is settled: a
directory stands at it, and another attempt is answered that something is there and goes no further.
Or one of the paths on the way is obstructed: it cannot be created in the files that are left
behind, for another reason than that its parent is missing, and no directory stands there to make up
for it. `decided_addDirectories` goes through the attempt once, from a path to its parent and back.

That a second attempt changes nothing is then no matter of the first: it is what a settled path is
(`addDirectories_of_settled`).
-/

namespace Runbook

namespace FileSystem

variable {fs made : FileSystem} {faults : List Fault} {here there : Location} {p : Path}
  {e cause : SystemError}

/-! ## Settled paths -/

theorem isDirectory_of_locate {r : Route} (hlocate : fs.locate r = .ok there)
    (hnode : fs.node? there = some .directory) : fs.isDirectory r = .ok true := by
  rw [isDirectory, nodeAt, hlocate]
  dsimp only
  rw [hnode]
  rfl

theorem forgive_eq_ok_iff :
    fs.forgive here p e = .ok () ↔ fs.isDirectory (p.route here) = .ok true := by
  rw [forgive]
  rcases fs.isDirectory (p.route here) with code | _ | _ <;> simp

/-- A directory stands at the path, and an attempt to create it fails for what stands there. -/
structure Settled (fs : FileSystem) (faults : List Fault) (here : Location) (p : Path) : Prop where
  /-- The attempt fails, and not for something that is missing. -/
  refused : ∃ e, fs.tryDirectory faults here p = .error e ∧ e.isNotFound = false
  /-- It is a directory that stands there. -/
  isDirectory : fs.isDirectory (p.route here) = .ok true

/-- A directory that has just been created is there, and is in the way of another attempt. -/
theorem settled_of_tryDirectory (h : fs.tryDirectory faults here p = .ok made) :
    made.Settled faults here p := by
  obtain ⟨hfault, there, hplace, hnone, rfl⟩ := tryDirectory_eq_ok h
  have hgrown : fs.Extends (fs.put there .directory) := extends_put hnone (by simp)
  have hnew : (fs.put there .directory).node? there = some .directory :=
    node?_put_self (by simp [hnone]) .directory
  refine ⟨⟨ErrorCode.exists.about p.toString, ?_, rfl⟩, ?_⟩
  · rw [tryDirectory, hfault, addDirectory, hgrown.place_of_ok hplace]
    dsimp only
    rw [hnew]
  · exact isDirectory_of_locate (locate_put_of_place hplace hnone) hnew

theorem addDirectories_of_settled (h : fs.Settled faults here p) :
    fs.addDirectories faults here p = (fs, .ok ()) := by
  obtain ⟨e, htry, hfound⟩ := h.refused
  rw [addDirectories, htry]
  dsimp only
  rw [hfound, forgive_eq_ok_iff.mpr h.isDirectory]
  rfl

theorem missingDepth_of_settled (h : fs.Settled faults here p) :
    fs.missingDepth faults here p = 0 := by
  obtain ⟨e, htry, hfound⟩ := h.refused
  rw [missingDepth, htry]
  dsimp only
  rw [hfound]
  rfl

/-! ## Obstructed paths -/

/-- The directory of the path cannot be created, and what is reported is the given error. -/
inductive Obstructed (fs : FileSystem) (faults : List Fault) (here : Location) (q : Path) :
    SystemError → Prop
  /-- The attempt fails, not for something that is missing, and no directory stands there. -/
  | refused {e cause : SystemError} (htry : fs.tryDirectory faults here q = .error e)
      (hfound : e.isNotFound = false) (hforgive : fs.forgive here q e = .error cause) :
      Obstructed fs faults here q cause
  /-- The attempt fails for something that is missing, though it is not the directory above. -/
  | missing {e : SystemError} (htry : fs.tryDirectory faults here q = .error e)
      (hmissing : e.isNotFound = true)
      (habove : q.names = [] ∨ fs.isDirectory (q.parent.route here) = .ok true) :
      Obstructed fs faults here q e

/-- What an attempt has come to: the path is settled, or it is obstructed, itself or above it. -/
def Decided (faults : List Fault) (here : Location) (p : Path) :
    FileSystem × Except SystemError Unit → Prop
  | (made, .ok ()) => made.Settled faults here p
  | (made, .error cause) => ∃ q : Path, q.IsOn p ∧ made.Obstructed faults here q cause

theorem decided_forgive (htry : fs.tryDirectory faults here p = .error e)
    (hfound : e.isNotFound = false) : Decided faults here p (fs, fs.forgive here p e) := by
  rcases hforgive : fs.forgive here p e with cause | _
  · exact ⟨p, p.isOn_self, .refused htry hfound hforgive⟩
  · exact ⟨⟨e, htry, hfound⟩, forgive_eq_ok_iff.mp hforgive⟩

/-- **The verdict.** A path that could be created is settled. If it could not be, it or one of the
paths above it is obstructed, and that is what is reported. -/
theorem decided_addDirectories (fs : FileSystem) (faults : List Fault) (here : Location)
    (p : Path) : Decided faults here p (fs.addDirectories faults here p) := by
  induction p using Path.parentRec with
  | step p ih =>
    rw [addDirectories]
    rcases htry : fs.tryDirectory faults here p with e | made
    · dsimp only
      split
      · next hfound => exact decided_forgive htry (by simpa using hfound)
      next hmissing =>
      have hmissing : e.isNotFound = true := by simpa using hmissing
      split
      · next hroot => exact ⟨p, p.isOn_self, .missing htry hmissing (.inl hroot)⟩
      next hne =>
      have habove := ih hne
      rcases hup : fs.addDirectories faults here p.parent with ⟨above, cause | ⟨⟩⟩
      · rw [hup] at habove
        obtain ⟨q, hq, hobstructed⟩ := habove
        exact ⟨q, hq.of_parent, hobstructed⟩
      · -- The parent is settled now, so what is still missing is not the parent.
        rw [hup] at habove
        dsimp only
        rcases hagain : above.tryDirectory faults here p with e | made
        · dsimp only
          split
          · next hmissing =>
            exact ⟨p, p.isOn_self, .missing hagain hmissing (.inr habove.isDirectory)⟩
          · next hfound => exact decided_forgive hagain (by simpa using hfound)
        · exact settled_of_tryDirectory hagain
    · exact settled_of_tryDirectory htry

end FileSystem

/-! ## Creating a directory in a run -/

theorem createDirectory_of_settled {p : Path} (hnul : p.hasNul = false) {m : Machine}
    (h : m.files.Settled m.faults m.workingDirectory p) :
    createDirectory p m = .ok (.ok p) m := by
  rw [createDirectory, hnul, if_neg Bool.false_ne_true, FileSystem.missingDepth_of_settled h,
    if_neg (by decide), FileSystem.addDirectories_of_settled h]
  rfl

/-- **Creating a directory.** Whatever the path, the files and what is refused, creating a directory
comes to an end, and of the machine only the files have changed. All that was there is as before,
and what is new are directories, each at a place to which the path or one above it leads.

There are three ends. The directory is there, and creating it again succeeds and changes nothing. Or
it is not, the path itself is not among the new, and the error reported is about a path on the way
that is obstructed by what is there. Or more directories are missing than can wait for one another,
and nothing has changed at all. -/
theorem directory_created {p : Path} (hnul : p.hasNul = false) (m : Machine) :
    let n := Steps.final (createDirectory p) m
    n = { m with files := n.files } ∧
      m.files.GrownAlong n.files m.workingDirectory p ∧
      (createDirectory p m = .ok (.ok p) n ∧ n.files.isDirectory (n.route p) = .ok true ∧
          createDirectory p n = .ok (.ok p) n ∨
        (∃ cause, createDirectory p m = .ok (.error (.noDirectory p cause)) n ∧
          m.files.GrownAlong n.files m.workingDirectory p.parent ∧
          ∃ q : Path, q.IsOn p ∧ n.files.Obstructed n.faults n.workingDirectory q cause) ∨
        createDirectory p m = .error .deepDirectories m ∧
          FileSystem.depthLimit < m.files.missingDepth m.faults m.workingDirectory p) := by
  intro n
  by_cases hdeep : FileSystem.depthLimit < m.files.missingDepth m.faults m.workingDirectory p
  · have hrun := createDirectory_of_deep hnul hdeep
    have hn : n = m := Steps.final_of_error hrun
    rw [hn]
    exact ⟨rfl, .refl m.files m.workingDirectory p, .inr (.inr ⟨hrun, hdeep⟩)⟩
  · have hrun := createDirectory_of_shallow hnul hdeep
    have hn : n = { m with files := (m.withDirectory p).1 } := Steps.final_of_ok hrun
    obtain ⟨hgrown, hgrownUp⟩ := m.files.grownAlong_addDirectories m.faults m.workingDirectory p
    have hdecided := m.files.decided_addDirectories m.faults m.workingDirectory p
    rw [← Machine.withDirectory] at hgrown hgrownUp hdecided
    rw [hn]
    refine ⟨rfl, hgrown, ?_⟩
    rcases hmade : m.withDirectory p with ⟨made, cause | ⟨⟩⟩
    · rw [hmade] at hrun hgrownUp hdecided
      exact .inr (.inl ⟨cause, hrun, hgrownUp cause rfl, hdecided⟩)
    · rw [hmade] at hrun hdecided
      exact .inl ⟨hrun, hdecided.isDirectory, createDirectory_of_settled hnul hdecided⟩

/-- Creating `a/..` creates `a`, and with it the path is a directory: the one around `a`. -/
theorem directory_created_up :
    let p : Path := ⟨.relative, ["a", ".."]⟩
    let m : Machine := {}
    let n := Steps.final (createDirectory p) m
    p.hasNul = false ∧ n.files = m.files.put ["a"] .directory ∧
      createDirectory p m = .ok (.ok p) n ∧ n.files.isDirectory (n.route p) = .ok true ∧
      createDirectory p n = .ok (.ok p) n := by
  intro p m n
  have hnul : p.hasNul = false := by decide
  let made := m.files.put ["a"] .directory
  -- At first there is no `a` from which to go up, then there is.
  have hmissing : m.files.walk false FileSystem.linkBudget (p.route []).start
      (p.route []).names.dropLast = .ok ["a"] :=
    FileSystem.walk_eq_ok_iff.mpr (.vacant (by decide) rfl)
  have hfirst : m.files.tryDirectory [] [] p = .error (ErrorCode.notFound.about "a/..") := by
    rw [FileSystem.tryDirectory, FileSystem.addDirectory, FileSystem.place, if_neg (by decide),
      hmissing]
    rfl
  have hroot : m.files.walk false FileSystem.linkBudget (p.parent.route []).start
      (p.parent.route []).names.dropLast = .ok [] := FileSystem.walk_nil _ _ _ _
  have habove : m.files.tryDirectory [] [] p.parent = .ok made := by
    rw [FileSystem.tryDirectory, FileSystem.addDirectory, FileSystem.place, if_neg (by decide),
      hroot]
    rfl
  have hthere : made.walk false FileSystem.linkBudget (p.route []).start
      (p.route []).names.dropLast = .ok ["a"] :=
    FileSystem.walk_eq_ok_iff.mpr (.down (by decide) rfl .arrived)
  have hagain : made.tryDirectory [] [] p = .error (ErrorCode.exists.about "a/..") := by
    rw [FileSystem.tryDirectory, FileSystem.addDirectory, FileSystem.place, if_neg (by decide),
      hthere]
    rfl
  have hdirectory : made.nodeAt (p.route []) = .ok .directory :=
    FileSystem.nodeAt_of_reaches (.down (by decide) rfl (.up .arrived)) rfl
  have hforgive : made.forgive [] p (ErrorCode.exists.about "a/..") = .ok () := by
    rw [FileSystem.forgive, FileSystem.isDirectory, hdirectory]
    rfl
  have hmade : m.withDirectory p = (made, .ok ()) := by
    have hup : m.files.addDirectories [] [] p.parent = (made, .ok ()) := by
      rw [FileSystem.addDirectories, habove]
    rw [Machine.withDirectory, FileSystem.addDirectories, hfirst]
    dsimp only
    rw [if_neg (by decide), dif_neg (by decide), hup]
    dsimp only
    rw [hagain]
    dsimp only
    rw [if_neg (by decide), hforgive]
  have hshallow : ¬FileSystem.depthLimit < m.files.missingDepth [] [] p :=
    Nat.not_lt.mpr (Nat.le_trans (FileSystem.missingDepth_le _ _ _ _) (by decide))
  have hrun : createDirectory p m = .ok (.ok p) { files := made } := by
    rw [createDirectory_of_shallow hnul hshallow, hmade]
    rfl
  have hfiles : n.files = made := congrArg Machine.files (Steps.final_of_ok hrun)
  obtain ⟨-, -, ⟨hok, hdir, hsecond⟩ | ⟨_, hfailed, -⟩ | ⟨hleft, -⟩⟩ := directory_created hnul m
  · exact ⟨hnul, hfiles, hok, hdir, hsecond⟩
  · cases hrun.symm.trans hfailed
  · cases hrun.symm.trans hleft

end Runbook
