import Runbook.Proofs.Endings
import Runbook.Proofs.EnvFile.Loading

/-!
# The boundary to the system

Three operations ask the system for something and answer with a result: reading a file, finding an
executable, and starting a program. Each has a list of what it comes to, and the lists are complete,
so what is on none of them does not happen.

An error that the system reports is always an answer: a failure that carries the error
(`Machine.ReadFails`, `Child.Refuses`). What leaves the run is what the system never gets to see, a
NUL character in the path of a file; what an attempt to start a program raises instead of an error
of the system; and a wait for a program that reads a pipe after an interrupted one has closed it
(`Child.Leaves`). Looking for an executable only asks, and a question always has an answer.
-/

namespace Runbook

/-! ## Reading a file -/

namespace Machine

/-- Why the file at a path has no text. -/
inductive ReadFails (m : Machine) (p : Path) : ReadError → Prop
  /-- Reading is refused. -/
  | refused {e : SystemError} (h : Fault.error? m.faults .read p.toString = some e) :
      ReadFails m p (.system e)
  /-- The path leads to no file. -/
  | noContent {code : ErrorCode} (hpermitted : Fault.error? m.faults .read p.toString = none)
      (hnul : p.hasNul = false) (h : m.files.read (m.route p) = .error code) :
      ReadFails m p (.system (code.about p.toString))
  /-- The bytes of the file are not UTF-8. -/
  | notUtf8 {bytes : List UInt8} {e : Text.Utf8.DecodeError}
      (hpermitted : Fault.error? m.faults .read p.toString = none)
      (hnul : p.hasNul = false) (hread : m.files.read (m.route p) = .ok bytes)
      (h : Text.Utf8.decode bytes = .error e) : ReadFails m p (.notUtf8 e)

theorem readText_eq_failure_iff {m : Machine} {p : Path} {failure : Failure} :
    m.readText p = .ok (.error failure) ↔
      ∃ cause, m.ReadFails p cause ∧ failure = .unreadable p cause := by
  constructor
  · intro h
    rw [readText] at h
    split at h
    · next hrefused =>
      obtain ⟨⟩ := h
      exact ⟨_, .refused hrefused, rfl⟩
    · next hpermitted =>
      split at h
      · contradiction
      · next hnul =>
        have hnul := Bool.eq_false_iff.mpr hnul
        split at h
        · next hread =>
          obtain ⟨⟩ := h
          exact ⟨_, .noContent hpermitted hnul hread, rfl⟩
        · next hread =>
          split at h
          · next hdecode =>
            obtain ⟨⟩ := h
            exact ⟨_, .notUtf8 hpermitted hnul hread hdecode, rfl⟩
          · cases h
  · rintro ⟨cause, hfails, rfl⟩
    rw [readText]
    cases hfails with
    | refused hrefused => rw [hrefused]
    | noContent hpermitted hnul hread =>
      rw [hpermitted]
      dsimp only
      rw [hnul, if_neg Bool.false_ne_true, hread]
    | notUtf8 hpermitted hnul hread hdecode =>
      rw [hpermitted]
      dsimp only
      rw [hnul, if_neg Bool.false_ne_true, hread]
      dsimp only
      rw [hdecode]

/-! ## Finding an executable -/

/-- The written paths at which an executable may stand, in the order in which they are tried. -/
def candidates (m : Machine) (name : String) : List String :=
  if name.toList.contains '/' then [name] else m.searchPath.map (searchCandidate · name)

theorem findTool?_eq (m : Machine) (name : String) :
    m.findTool? name = (m.candidates name).find? m.isExecutable := by
  rw [findTool?, candidates]
  split
  · rw [List.find?_singleton]
  · rfl

theorem findTool_eq_ok_iff {m : Machine} {name path : String} :
    m.findTool name = .ok path ↔
      ∃ before after, m.candidates name = before ++ path :: after ∧ m.isExecutable path = true ∧
        ∀ other ∈ before, m.isExecutable other = false := by
  have hfind : m.findTool name = .ok path ↔ m.findTool? name = some path := by
    rw [findTool]
    rcases m.findTool? name with _ | found <;> simp
  rw [hfind, findTool?_eq, List.find?_eq_some_iff_append]
  simp only [Bool.not_eq_eq_eq_not, Bool.not_true]
  constructor
  · rintro ⟨hpath, before, after, hcandidates, hbefore⟩
    exact ⟨before, after, hcandidates, hpath, hbefore⟩
  · rintro ⟨before, after, hcandidates, hpath, hbefore⟩
    exact ⟨hpath, before, after, hcandidates, hbefore⟩

theorem findTool_eq_error_iff {m : Machine} {name : String} {failure : Failure} :
    m.findTool name = .error failure ↔
      (∀ path ∈ m.candidates name, m.isExecutable path = false) ∧
        failure = .missingTool name := by
  have hfind : m.findTool name = .error failure ↔
      m.findTool? name = none ∧ failure = .missingTool name := by
    rw [findTool]
    rcases m.findTool? name with _ | found <;> simp [eq_comm]
  rw [hfind, findTool?_eq, List.find?_eq_none]
  simp only [Bool.not_eq_true]

end Machine

/-! ## Starting a program -/

theorem Child.leaves_iff {capture : Bool} {child : Child} {escape : Escape} :
    child.Leaves capture escape ↔ child = .escaped escape ∨
      capture = true ∧ escape = .closedPipe ∧ ∃ raw output interrupts effects,
        child = .exits raw output interrupts effects ∧ .closed ∈ interrupts := by
  constructor
  · intro h
    cases h with
    | raised => exact .inl rfl
    | broken hcapture hclosed => exact .inr ⟨hcapture, rfl, _, _, _, _, rfl, hclosed⟩
  · rintro (rfl | ⟨hcapture, rfl, raw, output, interrupts, effects, rfl, hclosed⟩)
    · exact .raised escape
    · exact .broken hcapture hclosed

/-! ## The boundary -/

/-- **The boundary.** Reading a file leaves the run exactly for a NUL character in a path that is
not refused beforehand, looking for an executable never does, and starting a program does exactly if
the attempt raises something else than an error of the system, or if its output is captured and an
interrupt comes after the pipe has been closed. In all other cases there is an answer, and every
error that the system reports is the cause of a failure. -/
theorem boundary_escapes (m : Machine) :
    (∀ p,
      (∀ escape, m.readText p = .error escape ↔
        Fault.error? m.faults .read p.toString = none ∧ p.hasNul = true ∧ escape = .nulInPath) ∧
      ∀ failure, m.readText p = .ok (.error failure) ↔
        ∃ cause, m.ReadFails p cause ∧ failure = .unreadable p cause) ∧
    (∀ name,
      (∀ path, m.findTool name = .ok path ↔
        ∃ before after, m.candidates name = before ++ path :: after ∧ m.isExecutable path = true ∧
          ∀ other ∈ before, m.isExecutable other = false) ∧
      ∀ failure, m.findTool name = .error failure ↔
        (∀ path ∈ m.candidates name, m.isExecutable path = false) ∧
          failure = .missingTool name) ∧
    ∀ (r : Request) (n : Machine),
      (∀ escape, r.start m = .error escape n ↔
        (m.children.headD .quiet = .escaped escape ∨
            r.capture = true ∧ escape = .closedPipe ∧ ∃ raw output interrupts effects,
              m.children.headD .quiet = .exits raw output interrupts effects ∧
                .closed ∈ interrupts) ∧
          n = m.afterSpawn r) ∧
      ∀ failure, r.start m = .ok (.error failure) n ↔
        ∃ cause, (m.children.headD .quiet).Refuses r cause ∧ failure = .notStarted r cause ∧
          n = m.afterSpawn r :=
  ⟨fun _ ↦ ⟨fun _ ↦ Machine.readText_eq_error_iff, fun _ ↦ Machine.readText_eq_failure_iff⟩,
    fun _ ↦ ⟨fun _ ↦ Machine.findTool_eq_ok_iff, fun _ ↦ Machine.findTool_eq_error_iff⟩,
    fun _ _ ↦ ⟨fun _ ↦ start_eq_error_iff.trans (and_congr_left fun _ ↦ Child.leaves_iff),
      fun _ ↦ start_eq_failure_iff⟩⟩

/-- A file whose path holds a NUL character cannot be asked for. -/
theorem boundary_escapes_nul :
    Machine.readText {} (Path.ofString "a\x00b") = .error .nulInPath := by
  refine Machine.readText_eq_error_iff.mpr ⟨rfl, ?_, rfl⟩
  decide

end Runbook
