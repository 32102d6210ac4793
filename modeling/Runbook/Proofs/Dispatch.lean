import Runbook.Proofs.Frames

/-!
# A command in three acts

A command that starts a program first clears the way to it, then starts it, and then makes
something of it when it has ended. `Entry.run` is written down by the kind of the command; here it
is cut at the program instead (`run_eq_approach`), because everything that can be said about the
program of a command is decided before the cut, and everything about its outcome after it.

## The two sides of the cut

What lies before the cut is `Entry.approach`. If it gets through, `Approached` says all there is to
know: which request comes out of it, and that the machine differs from the one at the beginning at
most in standard error and, for a command that stores a schema, in the directories made for it. If
it fails, the command was not `Cleared`.

What lies after the cut starts nothing. So the program that a run tries to start is a function of
the machine it starts on, `Invocation.attempt?`. The trace of every run, also of one that is left by
an escape, is the trace before it with that attempt added (`Invocation.trace_final_run`).
-/

namespace Runbook

open Command

/-! ## The effects of programs -/

/-- The files that a program changes are all that it changes of the machine, the place where the
run stands in them included. -/
theorem Machine.applyAll_eq (m : Machine) (effects : List Effect) :
    m.applyAll effects = { m with
      files := (m.applyAll effects).files
      workingDirectory := (m.applyAll effects).workingDirectory } := by
  rw [Machine.applyAll]
  -- The machine is general, as every effect leaves another one for those that follow.
  induction effects generalizing m with
  | nil => rfl
  | cons e rest ih => exact ih (m.apply e)

@[simp] theorem Machine.faults_applyAll (m : Machine) (effects : List Effect) :
    (m.applyAll effects).faults = m.faults := by
  rw [m.applyAll_eq]

@[simp] theorem Machine.environment_applyAll (m : Machine) (effects : List Effect) :
    (m.applyAll effects).environment = m.environment := by
  rw [m.applyAll_eq]

@[simp] theorem Machine.journal_applyAll (m : Machine) (effects : List Effect) :
    (m.applyAll effects).journal = m.journal := by
  rw [m.applyAll_eq]

theorem Machine.applyAll_congr {m k : Machine} (hfiles : m.files = k.files)
    (hhere : m.workingDirectory = k.workingDirectory) (effects : List Effect) :
    (m.applyAll effects).files = (k.applyAll effects).files ∧
      (m.applyAll effects).workingDirectory = (k.applyAll effects).workingDirectory := by
  rw [Machine.applyAll, Machine.applyAll]
  induction effects generalizing m k with
  | nil => exact ⟨hfiles, hhere⟩
  | cons e rest ih =>
    refine ih (m := m.apply e) (k := k.apply e) ?_ ?_ <;>
      simp only [Machine.apply, hfiles, hhere]

theorem final_start (r : Request) (m : Machine) : Steps.final r.start m = m.afterSpawn r := by
  rw [Steps.final, Request.start]
  rcases (m.children.headD .quiet).answer r with _ | _
  · rfl
  · rfl

theorem keeps_environment_start (r : Request) : Keeps Machine.environment r.start := by
  intro m
  rw [final_start]
  exact m.environment_applyAll _

theorem keeps_journal_start (r : Request) : Keeps Machine.journal r.start := by
  intro m
  rw [final_start]
  exact m.journal_applyAll _

namespace Command.Entry

/-! ## The cut -/

/-- Makes the request of a command, and the directory for its output if that is to be stored. -/
def prepare (e : Entry) (overlay : Overlay) (trailing : List String) : Run Request :=
  match e.request overlay trailing with
  | .error escape => fun m ↦ .error escape m
  | .ok r =>
    match e.action with
    | .schema => do
      let _ ← createDirectory (Path.ofString schemaDirectory)
      return { r with capture := true }
    | _ => return r

/-- All that a command does before its program is started. -/
def approach (e : Entry) (trailing : List String) : Run Request := do
  e.checkTool
  let overlay ← e.overlay
  e.prepare overlay trailing

/-- What a command makes of its program when that has ended. -/
def settle (e : Entry) (finished : Finished) : Run Int :=
  match e.action with
  | .schema => do
    let _ ← writeFile (Path.ofString schemaFile) finished.output
    return finished.status
  | _ => return finished.status

theorem run_eq_approach {e : Entry} (h : e.spawns = true) (trailing : List String) :
    e.run trailing = (do
      let r ← e.approach trailing
      let finished ← r.start
      e.settle finished) := by
  rw [run, if_pos h]
  simp only [approach, bind_assoc]
  -- Both sides now begin with the tool and the env file, and differ in what follows those.
  refine congrArg _ (funext fun _ ↦ congrArg _ (funext fun overlay ↦ ?_))
  rw [start, prepare]
  rcases e.request overlay trailing with escape | r
  · rfl
  · dsimp only
    unfold settle storeSchema
    rcases e.action
    · rw [pure_bind]
    · rw [pure_bind]
    · simp only [Run.discard_bind, bind_assoc, pure_bind]

/-! ## Before the cut -/

/-- Nothing on the machine stands between a command and its program: the tool that it requires is
there, and the directory for a schema can be created. -/
structure Cleared (e : Entry) (m : Machine) : Prop where
  /-- A required tool is found. -/
  tool : ∀ tool, e.requiresTool = some tool → (m.findTool? tool).isSome = true
  /-- The directory for a schema can be created. -/
  directory : e.action = .schema →
    (m.withDirectory (Path.ofString schemaDirectory)).2 = .ok ()

/-- A command has got from the machine `m` to the point at which the request `r` is started on the
machine `n`. -/
structure Approached (e : Entry) (trailing : List String) (m : Machine) (r : Request)
    (n : Machine) : Prop where
  /-- Nothing stood in the way. -/
  cleared : e.Cleared m
  /-- The program is that of the command. -/
  program : e.program = some r.program
  /-- Its arguments are those of the command. -/
  arguments : r.arguments = e.arguments trailing
  /-- The values come from the env file of the command. -/
  values : ∃ overlay stream,
    e.overlay m = .ok overlay { m with stderr := stream } ∧ r.environment = overlay.values
  /-- The output is captured if it is to be stored. -/
  capture : r.capture = decide (e.action = .schema)
  /-- Of the machine, only standard error and the files may have changed. -/
  machine : n = { m with stderr := n.stderr, files := n.files }
  /-- Of the files, only the directories for a schema may be new. -/
  files : n.files =
    if e.action = .schema then (m.withDirectory (Path.ofString schemaDirectory)).1 else m.files

theorem checkTool_eq_ok_iff {e : Entry} {m : Machine} :
    m.checkTool e = .ok () ↔
      ∀ tool, e.requiresTool = some tool → (m.findTool? tool).isSome = true := by
  rw [Machine.checkTool]
  rcases e.requiresTool with _ | tool
  · refine ⟨?_, fun _ ↦ rfl⟩
    rintro - tool ⟨⟩
  · simp only [Machine.findTool, Option.some.injEq, forall_eq']
    rcases m.findTool? tool with _ | path
    · constructor
      · rintro ⟨⟩
      · rintro ⟨⟩
    · exact ⟨fun _ ↦ rfl, fun _ ↦ rfl⟩

theorem overlay_of_envFile_none {e : Entry} (h : e.envFile = none) : e.overlay = pure {} := by
  rw [Entry.overlay, h]

theorem overlay_of_envFile_some {e : Entry} {name : String} (h : e.envFile = some name) :
    e.overlay = Overlay.load name := by
  rw [Entry.overlay, h]

theorem overlay_of_ok {e : Entry} {m n : Machine} {overlay : Overlay}
    (h : e.overlay m = .ok overlay n) :
    (e.envFile = none → overlay = {}) ∧
      (∀ name, e.envFile = some name → ∃ lines, m.envOverlay name = .ok (overlay, lines)) ∧
      ∃ stream, n = { m with stderr := stream } := by
  rcases henv : e.envFile with _ | name
  · rw [overlay_of_envFile_none henv] at h
    obtain ⟨rfl, rfl⟩ := EStateM.Result.ok.inj h
    refine ⟨fun _ ↦ rfl, ?_, m.stderr, rfl⟩
    rintro name ⟨⟩
  · rw [overlay_of_envFile_some henv] at h
    rcases hload : m.envOverlay name with escape | ⟨loaded, lines⟩
    · rw [load_of_error hload] at h
      contradiction
    · rw [load_of_ok hload] at h
      obtain ⟨rfl, rfl⟩ := EStateM.Result.ok.inj h
      refine ⟨?_, ?_, _, rfl⟩
      · rintro ⟨⟩
      · rintro _ ⟨rfl⟩
        exact ⟨lines, hload⟩

theorem exists_overlay_eq_ok {e : Entry} {m : Machine}
    (h : ∀ name, e.envFile = some name → ∃ loaded, m.envOverlay name = .ok loaded) :
    ∃ overlay n, e.overlay m = .ok overlay n := by
  rcases henv : e.envFile with _ | name
  · rw [overlay_of_envFile_none henv]
    exact ⟨{}, m, rfl⟩
  · obtain ⟨loaded, hload⟩ := h name henv
    rw [overlay_of_envFile_some henv, load_of_ok hload]
    exact ⟨_, _, rfl⟩

theorem prepare_of_schema {e : Entry} {overlay : Overlay} {trailing : List String} {r : Request}
    (hr : e.request overlay trailing = .ok r) (he : e.action = .schema) :
    e.prepare overlay trailing = (do
      let _ ← createDirectory (Path.ofString schemaDirectory)
      return { r with capture := true }) := by
  rw [prepare, hr, he]

theorem prepare_of_not_schema {e : Entry} {overlay : Overlay} {trailing : List String}
    {r : Request} (hr : e.request overlay trailing = .ok r) (he : e.action ≠ .schema) :
    e.prepare overlay trailing = pure r := by
  rw [prepare, hr]
  rcases haction : e.action
  · rfl
  · rfl
  · exact absurd haction he

theorem prepare_of_error {e : Entry} {overlay : Overlay} {trailing : List String}
    {escape : Escape} (hr : e.request overlay trailing = .error escape) (m : Machine) :
    e.prepare overlay trailing m = .error escape m := by
  rw [prepare, hr]

theorem request_of_ok {e : Entry} {overlay : Overlay} {trailing : List String} {r : Request}
    (h : e.request overlay trailing = .ok r) :
    e.program = some r.program ∧ r = ⟨r.program, e.arguments trailing, overlay.values, false⟩ := by
  rw [request] at h
  rcases hprogram : e.program with _ | program
  · rw [hprogram] at h
    contradiction
  · rw [hprogram] at h
    obtain rfl := Except.ok.inj h
    exact ⟨rfl, rfl⟩

theorem approached_of_prepare {e : Entry} {overlay : Overlay} {trailing : List String}
    {m n : Machine} {stream : Stream} {r : Request} (htool : m.checkTool e = .ok ())
    (hload : e.overlay m = .ok overlay { m with stderr := stream })
    (h : e.prepare overlay trailing { m with stderr := stream } = .ok (.ok r) n) :
    e.Approached trailing m r n := by
  rcases hr : e.request overlay trailing with escape | q
  · rw [prepare_of_error hr] at h
    contradiction
  · obtain ⟨hprogram, hq⟩ := request_of_ok hr
    by_cases he : e.action = .schema
    · rw [prepare_of_schema hr he] at h
      obtain ⟨made, k, hdir, hpure⟩ := Run.bind_eq_answer_iff.mp h
      obtain ⟨hmade, hk⟩ := createDirectory_of_answer hdir
      obtain ⟨⟨⟩, rfl⟩ := EStateM.Result.ok.inj hpure
      exact {
        cleared := ⟨checkTool_eq_ok_iff.mp htool, fun _ ↦ hmade⟩
        program := hprogram
        arguments := by rw [hq]
        values := ⟨overlay, stream, hload, by rw [hq]⟩
        capture := (decide_eq_true he).symm
        machine := by rw [hk]
        files := by rw [hk, if_pos he]; rfl }
    · rw [prepare_of_not_schema hr he] at h
      obtain ⟨⟨⟩, rfl⟩ := EStateM.Result.ok.inj h
      exact {
        cleared := ⟨checkTool_eq_ok_iff.mp htool, fun h ↦ absurd h he⟩
        program := hprogram
        arguments := by rw [hq]
        values := ⟨overlay, stream, hload, by rw [hq]⟩
        capture := by rw [hq]; exact (decide_eq_false he).symm
        machine := rfl
        files := (if_neg he).symm }

theorem prepare_of_failure {e : Entry} {overlay : Overlay} {trailing : List String}
    {m n : Machine} {failure : Failure}
    (h : e.prepare overlay trailing m = .ok (.error failure) n) :
    e.action = .schema ∧ ∃ cause,
      (m.withDirectory (Path.ofString schemaDirectory)).2 = .error cause ∧
        failure = .noDirectory (Path.ofString schemaDirectory) cause ∧
        n = { m with files := (m.withDirectory (Path.ofString schemaDirectory)).1 } := by
  rcases hr : e.request overlay trailing with escape | r
  · rw [prepare_of_error hr] at h
    contradiction
  · by_cases he : e.action = .schema
    · rw [prepare_of_schema hr he] at h
      rcases Run.bind_eq_failure_iff.mp h with hdir | ⟨_, _, _, hpure⟩
      · exact ⟨he, createDirectory_of_failure hdir⟩
      · obtain ⟨⟨⟩, -⟩ := EStateM.Result.ok.inj hpure
    · rw [prepare_of_not_schema hr he] at h
      obtain ⟨⟨⟩, -⟩ := EStateM.Result.ok.inj h

theorem exists_prepare_eq_ok {e : Entry} {program : String} (hprogram : e.program = some program)
    (overlay : Overlay) (trailing : List String) (m : Machine) :
    ∃ r n, e.prepare overlay trailing m = .ok r n := by
  have hrequest : e.request overlay trailing
      = .ok ⟨program, e.arguments trailing, overlay.values, false⟩ := by
    rw [request, hprogram]
  by_cases he : e.action = .schema
  · rw [prepare_of_schema hrequest he, Run.bind_apply]
    obtain ⟨made, n, hdir⟩ := exists_createDirectory_eq_ok
      (p := Path.ofString schemaDirectory) (by decide) (by decide) m
    rw [hdir]
    rcases made with failure | made
    · exact ⟨_, _, rfl⟩
    · exact ⟨_, _, rfl⟩
  · rw [prepare_of_not_schema hrequest he]
    exact ⟨_, _, rfl⟩

theorem checkTool_of_ok {e : Entry} {m n : Machine} {r : Except Failure Unit}
    (h : e.checkTool m = .ok r n) : m.checkTool e = r ∧ n = m := by
  injection h with hr hn
  exact ⟨hr, hn.symm⟩

/-- **The way is clear.** Whatever gets a command to its program is told by the machine that it
starts on. -/
theorem approached_of_approach {e : Entry} {trailing : List String} {m n : Machine} {r : Request}
    (h : e.approach trailing m = .ok (.ok r) n) : e.Approached trailing m r n := by
  obtain ⟨_, k, hcheck, hrest⟩ := Run.bind_eq_answer_iff.mp h
  obtain ⟨htool, rfl⟩ := checkTool_of_ok hcheck
  obtain ⟨overlay, l, hload, hprepare⟩ := Run.bind_eq_answer_iff.mp hrest
  rw [Run.lift_eq_ok_iff] at hload
  obtain ⟨-, -, stream, rfl⟩ := overlay_of_ok hload
  exact approached_of_prepare htool hload hprepare

theorem checkTool_eq_error {e : Entry} {m : Machine} {failure : Failure}
    (h : m.checkTool e = .error failure) :
    ∃ tool, e.requiresTool = some tool ∧ m.findTool? tool = none ∧ failure = .missingTool tool := by
  rw [Machine.checkTool] at h
  rcases htool : e.requiresTool with _ | tool
  · rw [htool] at h
    contradiction
  · rw [htool] at h
    dsimp only at h
    rw [Machine.findTool] at h
    rcases hfind : m.findTool? tool with _ | path
    · rw [hfind] at h
      exact ⟨tool, rfl, hfind, (Except.error.inj h).symm⟩
    · rw [hfind] at h
      contradiction

/-- **The way is blocked.** A command that fails before its program lacks its tool, and has done
nothing, or its directory, and has created at most some of those above it. The env file is never the
reason. -/
theorem approach_of_failure {e : Entry} {trailing : List String} {m n : Machine}
    {failure : Failure} (h : e.approach trailing m = .ok (.error failure) n) :
    (∃ tool, e.requiresTool = some tool ∧ m.findTool? tool = none ∧
        failure = .missingTool tool ∧ n = m) ∨
      e.action = .schema ∧ ∃ cause stream,
        (m.withDirectory (Path.ofString schemaDirectory)).2 = .error cause ∧
          failure = .noDirectory (Path.ofString schemaDirectory) cause ∧
          n = { m with
            stderr := stream, files := (m.withDirectory (Path.ofString schemaDirectory)).1 } := by
  rcases Run.bind_eq_failure_iff.mp h with hcheck | ⟨_, k, hcheck, hrest⟩
  · obtain ⟨htool, rfl⟩ := checkTool_of_ok hcheck
    obtain ⟨tool, hrequires, hnone, rfl⟩ := checkTool_eq_error htool
    exact .inl ⟨tool, hrequires, hnone, rfl, rfl⟩
  · obtain ⟨-, rfl⟩ := checkTool_of_ok hcheck
    rcases Run.bind_eq_failure_iff.mp hrest with hload | ⟨overlay, l, hload, hprepare⟩
    · exact absurd hload Run.lift_ne_failure
    · rw [Run.lift_eq_ok_iff] at hload
      obtain ⟨-, -, stream, rfl⟩ := overlay_of_ok hload
      -- Standard error has changed since `k`, and creating directories does not look at it.
      obtain ⟨he, cause, hcause, rfl, rfl⟩ := prepare_of_failure hprepare
      exact .inr ⟨he, cause, stream, hcause, rfl, rfl⟩

theorem not_cleared_of_approach {e : Entry} {trailing : List String} {m n : Machine}
    {failure : Failure} (h : e.approach trailing m = .ok (.error failure) n) : ¬e.Cleared m := by
  intro hclear
  rcases approach_of_failure h with ⟨tool, hrequires, hnone, -⟩ | ⟨he, cause, _, hcause, -⟩
  · have hfound := hclear.tool tool hrequires
    rw [hnone] at hfound
    contradiction
  · rw [hclear.directory he] at hcause
    contradiction

/-- A command gets to its program or fails before it, if its env file does not make the run
leave. -/
theorem exists_approach_eq_ok {e : Entry} {m : Machine} {program : String}
    (hprogram : e.program = some program)
    (hload : ∀ name, e.envFile = some name → ∃ loaded, m.envOverlay name = .ok loaded)
    (trailing : List String) : ∃ r n, e.approach trailing m = .ok r n := by
  rw [approach, Run.bind_apply, checkTool]
  rcases m.checkTool e with failure | _
  · exact ⟨_, _, rfl⟩
  · obtain ⟨overlay, n, hoverlay⟩ := exists_overlay_eq_ok hload
    obtain ⟨r, k, hprepare⟩ := exists_prepare_eq_ok hprogram overlay trailing n
    refine ⟨r, k, ?_⟩
    dsimp only
    rw [Run.bind_apply, Run.lift_eq_ok_iff.mpr hoverlay]
    exact hprepare

theorem exists_approach_of_cleared {e : Entry} {m : Machine} {program : String}
    (hclear : e.Cleared m) (hprogram : e.program = some program)
    (hload : ∀ name, e.envFile = some name → ∃ loaded, m.envOverlay name = .ok loaded)
    (trailing : List String) : ∃ r n, e.approach trailing m = .ok (.ok r) n := by
  obtain ⟨r | r, n, happroach⟩ := exists_approach_eq_ok hprogram hload trailing
  · exact absurd hclear (not_cleared_of_approach happroach)
  · exact ⟨r, n, happroach⟩

theorem settle_of_not_schema {e : Entry} (he : e.action ≠ .schema) (finished : Finished) :
    e.settle finished = pure finished.status := by
  rw [settle]
  split
  · next haction => exact absurd haction he
  · rfl

section Keeps

variable {γ : Type} {part : Machine → γ}

theorem keeps_overlay (herr : IgnoresStderr part) (e : Entry) : Keeps part e.overlay := by
  rcases henv : e.envFile with _ | name
  · rw [overlay_of_envFile_none henv]
    exact .pure _
  · rw [overlay_of_envFile_some henv]
    exact keeps_load herr name

theorem keeps_prepare (hfiles : IgnoresFiles part) (e : Entry) (overlay : Overlay)
    (trailing : List String) : Keeps part (e.prepare overlay trailing) := by
  rcases hr : e.request overlay trailing with escape | r
  · intro m
    rw [Steps.final_of_error (prepare_of_error hr m)]
  · by_cases he : e.action = .schema
    · rw [prepare_of_schema hr he]
      exact (keeps_createDirectory hfiles _).bindRun fun _ ↦ .pure _
    · rw [prepare_of_not_schema hr he]
      exact .pure _

/-- Up to the program, a command tells things and creates directories, and that is all. -/
theorem keeps_approach (herr : IgnoresStderr part) (hfiles : IgnoresFiles part) (e : Entry)
    (trailing : List String) : Keeps part (e.approach trailing) := by
  have hcheck : Keeps part e.checkTool := fun _ ↦ rfl
  exact hcheck.bindRun fun _ ↦
    (keeps_overlay herr e).lift.bindRun fun overlay ↦ keeps_prepare hfiles e overlay trailing

theorem keeps_settle (hfiles : IgnoresFiles part) (e : Entry) (finished : Finished) :
    Keeps part (e.settle finished) := by
  rw [settle]
  split
  · exact (keeps_writeFile hfiles _ _).bindRun fun _ ↦ .pure _
  · exact .pure _

theorem keeps_run_of_not_spawns (hout : IgnoresStdout part) {e : Entry} (h : ¬e.spawns = true)
    (trailing : List String) : Keeps part (e.run trailing) := by
  rw [run, if_neg h]
  exact (keeps_printOut hout _).bindRun fun _ ↦ .pure _

theorem keeps_run (herr : IgnoresStderr part) (hout : IgnoresStdout part)
    (hfiles : IgnoresFiles part) (hstart : ∀ r : Request, Keeps part r.start) (e : Entry)
    (trailing : List String) : Keeps part (e.run trailing) := by
  by_cases hspawns : e.spawns = true
  · rw [run_eq_approach hspawns]
    refine (keeps_approach herr hfiles e trailing).bindRun fun r ↦ ?_
    exact (hstart r).bindRun fun finished ↦ keeps_settle hfiles e finished
  · exact keeps_run_of_not_spawns hout hspawns trailing

end Keeps

/-! ## The attempt -/

section Attempt

variable {γ : Type} (part : Machine → γ) {e : Entry} {trailing : List String} {m n : Machine}
  {r : Request}

theorem Approached.part_eq (h : e.Approached trailing m r n) (herr : IgnoresStderr part)
    (hfiles : IgnoresFiles part) : part n = part m := by
  rw [h.machine]
  exact (herr { m with files := n.files } n.stderr).trans (hfiles m n.files)

theorem Approached.captures (h : e.Approached trailing m r n) (he : e.action = .schema) :
    r.capture = true := by
  rw [h.capture, decide_eq_true he]

theorem Approached.capture_of_not_schema (h : e.Approached trailing m r n)
    (he : e.action ≠ .schema) : r.capture = false := by
  rw [h.capture, decide_eq_false he]

theorem Approached.children_eq (h : e.Approached trailing m r n) : n.children = m.children :=
  h.part_eq _ (fun _ _ ↦ rfl) fun _ _ ↦ rfl

theorem Approached.spawns_eq (h : e.Approached trailing m r n) : n.spawns = m.spawns :=
  h.part_eq _ (fun _ _ ↦ rfl) fun _ _ ↦ rfl

/-- A command that hands the status of its program on gets to its program with the machine it
started on, up to standard error. -/
theorem Approached.machine_of_exec (h : e.Approached trailing m r n) (hexec : e.action = .exec) :
    n = { m with stderr := n.stderr } := by
  have hfiles : n.files = m.files := by
    rw [h.files, if_neg]
    rw [hexec]
    decide
  have hmachine := h.machine
  rw [hfiles] at hmachine
  exact hmachine

theorem Approached.afterSpawn_eq (h : e.Approached trailing m r n) :
    let k := Machine.applyAll { m with files := n.files } (m.children.headD .quiet).effects
    (n.afterSpawn r).files = k.files ∧ (n.afterSpawn r).workingDirectory = k.workingDirectory := by
  have hhere : n.workingDirectory = m.workingDirectory :=
    h.part_eq _ (fun _ _ ↦ rfl) fun _ _ ↦ rfl
  rw [Machine.afterSpawn, h.children_eq]
  exact Machine.applyAll_congr (m := n) (k := { m with files := n.files }) rfl hhere _

theorem run_apply_of_approach (hspawns : e.spawns = true)
    (h : e.approach trailing m = .ok (.ok r) n) :
    e.run trailing m = (r.start >>= e.settle : Run Int) n := by
  rw [run_eq_approach hspawns]
  exact Steps.bind_of_ok _ h

theorem final_run_of_approach (hspawns : e.spawns = true)
    (h : e.approach trailing m = .ok (.ok r) n) (hfiles : IgnoresFiles part) :
    part (Steps.final (e.run trailing) m) = part (n.afterSpawn r) := by
  have hfinal : Steps.final (e.run trailing) m
      = Steps.final (r.start >>= e.settle : Run Int) n := by
    rw [Steps.final, run_apply_of_approach hspawns h, Steps.final]
  rw [hfinal, Keeps.final_bindRun (keeps_settle hfiles e), final_start]

theorem final_run_of_not_approach (hspawns : e.spawns = true)
    (h : ∀ r n, e.approach trailing m ≠ .ok (.ok r) n) (herr : IgnoresStderr part)
    (hfiles : IgnoresFiles part) : part (Steps.final (e.run trailing) m) = part m := by
  have hkeeps := keeps_approach herr hfiles e trailing m
  rw [run_eq_approach hspawns, Steps.final, Run.bind_apply]
  rw [Steps.final] at hkeeps
  rcases ha : e.approach trailing m with ⟨failure | r, n⟩ | ⟨escape, n⟩
  · rw [ha] at hkeeps
    exact hkeeps
  · exact absurd ha (h r n)
  · rw [ha] at hkeeps
    exact hkeeps

end Attempt

/-- The program that a command tries to start, if it gets as far as that. -/
def attempt? (e : Entry) (trailing : List String) (m : Machine) : Option Spawn :=
  match e.approach trailing m with
  | .ok (.ok r) n => some (n.spawnOf r (n.children.headD .quiet))
  | _ => none

theorem attempt?_of_approach {e : Entry} {trailing : List String} {m n : Machine} {r : Request}
    (h : e.approach trailing m = .ok (.ok r) n) :
    e.attempt? trailing m = some (n.spawnOf r (n.children.headD .quiet)) := by
  rw [attempt?, h]

theorem attempt?_of_failure {e : Entry} {trailing : List String} {m n : Machine}
    {failure : Failure} (h : e.approach trailing m = .ok (.error failure) n) :
    e.attempt? trailing m = none := by
  rw [attempt?, h]

theorem attempt?_of_not_approach {e : Entry} {trailing : List String} {m : Machine}
    (h : ∀ r n, e.approach trailing m ≠ .ok (.ok r) n) : e.attempt? trailing m = none := by
  rw [attempt?]
  split
  · next r n hr => exact absurd hr (h r n)
  · rfl

theorem exists_approach_of_attempt? {e : Entry} {trailing : List String} {m : Machine}
    {s : Spawn} (h : e.attempt? trailing m = some s) :
    ∃ r n, e.approach trailing m = .ok (.ok r) n ∧
      s = n.spawnOf r (n.children.headD .quiet) := by
  rw [attempt?] at h
  split at h
  · next r n hr => exact ⟨r, n, hr, (Option.some.inj h).symm⟩
  · contradiction

/-- **The trace of a command.** One attempt is added to the trace and one child taken from the
queue, or nothing is. -/
theorem trace_final_run {e : Entry} (hspawns : e.spawns = true) (trailing : List String)
    (m : Machine) :
    (Steps.final (e.run trailing) m).spawns = m.spawns ++ (e.attempt? trailing m).toList ∧
      (Steps.final (e.run trailing) m).children
        = m.children.drop (e.attempt? trailing m).toList.length := by
  by_cases h : ∃ r n, e.approach trailing m = .ok (.ok r) n
  · obtain ⟨r, n, h⟩ := h
    have hready := approached_of_approach h
    rw [attempt?_of_approach h]
    constructor
    · rw [final_run_of_approach Machine.spawns hspawns h fun _ _ ↦ rfl, ← hready.spawns_eq]
      rfl
    · rw [final_run_of_approach Machine.children hspawns h fun _ _ ↦ rfl, ← hready.children_eq]
      exact List.drop_one.symm
  · have h : ∀ r n, e.approach trailing m ≠ .ok (.ok r) n := fun r n hr ↦ h ⟨r, n, hr⟩
    rw [attempt?_of_not_approach h, Option.toList_none, List.append_nil]
    constructor
    · exact final_run_of_not_approach Machine.spawns hspawns h (fun _ _ ↦ rfl) fun _ _ ↦ rfl
    · exact final_run_of_not_approach Machine.children hspawns h (fun _ _ ↦ rfl) fun _ _ ↦ rfl

end Command.Entry

/-! ## Whole runs

Around a command stand the words that select it and the report of its failure. Neither starts
anything. -/

section Final

variable {γ : Type} (part : Machine → γ)

theorem Invocation.final_run (herr : IgnoresStderr part) (hjournal : IgnoresJournal part)
    (i : Invocation) (m : Machine) :
    part (Steps.final i.run m) = part (Steps.final (Command.run i.command i.trailing) m) := by
  refine Keeps.final_bind ?_ m
  rintro (f | status)
  · exact keeps_announce herr hjournal f
  · exact .pure _

theorem CommandLine.final_run (herr : IgnoresStderr part) (words : List String) (m : Machine) :
    part (Steps.final (CommandLine.run words) m)
      = part (Steps.final (Invocation.ofWords (scan words)).run m) := by
  rw [Steps.final, CommandLine.run, Steps.final]
  rcases (Invocation.ofWords (scan words)).run m with ⟨status, n⟩ | ⟨escape, n⟩
  · rfl
  · dsimp only
    by_cases habort : escape.isAbort = true
    · rw [if_pos habort]
      exact keeps_tellAbort herr n
    · rw [if_neg habort]

end Final

/-- The program that an invocation tries to start, if it selects a command that has one and that
gets as far as that. -/
def Invocation.attempt? (i : Invocation) (m : Machine) : Option Spawn :=
  match Command.find? i.command with
  | none => none
  | some e => if e.spawns then e.attempt? i.trailing m else none

/-- **The trace of a run.** Whatever becomes of a run, its trace is that of its one attempt, and
one child is gone for it. -/
theorem Invocation.trace_final_run (i : Invocation) (m : Machine) :
    (Steps.final i.run m).spawns = m.spawns ++ (i.attempt? m).toList ∧
      (Steps.final i.run m).children = m.children.drop (i.attempt? m).toList.length := by
  rw [Invocation.final_run Machine.spawns (fun _ _ ↦ rfl) (fun _ _ ↦ rfl),
    Invocation.final_run Machine.children (fun _ _ ↦ rfl) (fun _ _ ↦ rfl),
    Command.run, Invocation.attempt?]
  rcases Command.find? i.command with _ | e
  · exact ⟨(List.append_nil _).symm, rfl⟩
  · dsimp only
    by_cases hspawns : e.spawns = true
    · rw [if_pos hspawns]
      exact Entry.trace_final_run hspawns i.trailing m
    · have hspawned : Keeps Machine.spawns (e.run i.trailing) :=
        Entry.keeps_run_of_not_spawns (fun _ _ ↦ rfl) hspawns _
      have htaken : Keeps Machine.children (e.run i.trailing) :=
        Entry.keeps_run_of_not_spawns (fun _ _ ↦ rfl) hspawns _
      rw [if_neg hspawns, Option.toList_none, List.append_nil]
      exact ⟨hspawned m, htaken m⟩

end Runbook
