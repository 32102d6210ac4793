import Runbook.Proofs.Gating
import Runbook.Proofs.EnvFile.Loading
import Runbook.Proofs.FileSystem.Outline
import Runbook.Proofs.FileSystem.Reaching
import Runbook.Proofs.SideBySide

/-!
# What files can change about a run

An env file can change the environment of the program that a command starts and what is told about
the file, and nothing else. Where no env file is loaded, what the files hold cannot be seen at all.

## Commands with an env file

They require no tool and store no schema (`exec_of_envFile`), so the env file is the only file that
they look at. Their runs are not compared step by step, since the env file of one may be there and
that of the other not: both are taken apart by `Invocation.launched_of_run`, and what is left of
them is a request that differs in its environment and a child that is the same.

## Commands without one

Here the runs go side by side. Their machines resemble each other: they differ in where the program
lies and in the bytes of their files, and no step looks at either (`respected_resembles`).
-/

namespace Runbook

open Command

/-! ## Machines that resemble each other -/

/-- The machines differ at most in the bytes of their files and in where the program itself lies. -/
inductive Machine.Resembles (m : Machine) : Machine → Prop
  /-- The files have the same outline, and all else but the program's own place is the same. -/
  | intro (files : FileSystem) (program : Path) (h : m.files.SameOutline files) :
    Resembles m { m with files := files, programFile := program }

theorem Machine.Resembles.apply {m m' : Machine} (h : m.Resembles m') (e : Effect) :
    (m.apply e).Resembles (m'.apply e) := by
  obtain ⟨files, program, hfiles⟩ := h
  have happlied := hfiles.apply e
  simp only [Machine.apply, happlied.foothold_eq]
  exact .intro _ program happlied

theorem Machine.Resembles.applyAll {m m' : Machine} (h : m.Resembles m') (effects : List Effect) :
    (m.applyAll effects).Resembles (m'.applyAll effects) := by
  rw [Machine.applyAll, Machine.applyAll]
  induction effects generalizing m m' with
  | nil => exact h
  | cons e rest ih => exact ih (h.apply e)

theorem Machine.Resembles.withTrace {m m' : Machine} (h : m.Resembles m') (children : List Child)
    (spawns : List Spawn) :
    Machine.Resembles { m with children := children, spawns := spawns }
      { m' with children := children, spawns := spawns } := by
  obtain ⟨files, program, hfiles⟩ := h
  exact .intro files program hfiles

theorem Machine.Resembles.afterSpawn {m m' : Machine} (h : m.Resembles m') (r : Request) :
    (m.afterSpawn r).Resembles (m'.afterSpawn r) := by
  have hall := h.applyAll (m.children.headD .quiet).effects
  obtain ⟨files, program, -⟩ := h
  exact hall.withTrace m.children.tail (m.spawns ++ [m.spawnOf r (m.children.headD .quiet)])

theorem Machine.Resembles.checkTool_eq {m m' : Machine} (h : m.Resembles m') (e : Entry) :
    m'.checkTool e = m.checkTool e := by
  obtain ⟨files, program, hfiles⟩ := h
  have hexecutable : ∀ s, Machine.isExecutable { m with files := files, programFile := program } s
      = m.isExecutable s := by
    intro s
    rw [Machine.isExecutable, Machine.isExecutable]
    rcases hfiles.nodeAt_cases (Route.ofString m.workingDirectory s) with
      hsame | ⟨bytes, bytes', x, hnode, hnode'⟩
    · rw [hsame]
    · rw [hnode, hnode']
  have hfind : ∀ tool, Machine.findTool? { m with files := files, programFile := program } tool
      = m.findTool? tool := by
    intro tool
    rw [Machine.findTool?, Machine.findTool?, funext hexecutable]
    rfl
  rw [Machine.checkTool, Machine.checkTool]
  simp only [Machine.findTool, hfind]

theorem respects_createDirectory (p : Path) :
    Respects Machine.Resembles (createDirectory p) := by
  rintro m _ ⟨files, program, hfiles⟩
  rw [createDirectory, createDirectory]
  split
  · exact .error _ (.intro files program hfiles)
  · dsimp only
    rw [hfiles.missingDepth_eq]
    split
    · exact .error _ (.intro files program hfiles)
    · obtain ⟨hmade, hverdict⟩ := hfiles.addDirectories m.faults m.workingDirectory p
      rw [hverdict]
      exact .ok _ (.intro _ program hmade)

theorem respects_start (r : Request) : Respects Machine.Resembles r.start := by
  refine respects_start_of_afterSpawn ?_ fun h ↦ h.afterSpawn r
  rintro m _ ⟨files, program, -⟩
  rfl

theorem respects_writeFile (p : Path) (content : List UInt8) :
    Respects Machine.Resembles (writeFile p content) := by
  rintro m _ ⟨files, program, hfiles⟩
  have hkept : m.Resembles { m with files := files, programFile := program } :=
    .intro files program hfiles
  rw [writeFile, writeFile]
  dsimp only
  rcases Fault.error? m.faults .write p.toString with _ | e
  · dsimp only
    split
    · exact .error _ hkept
    · have hroute : Machine.route { m with files := files, programFile := program } p = m.route p :=
        rfl
      rw [hroute]
      rcases (hfiles.write (m.route p)
          (Fault.portion m.faults p.toString content).1).eq_error_or_eq_ok with
        ⟨code, hwrite, hwrite'⟩ | ⟨written, written', hwrite, hwrite', hwritten⟩
      · rw [hwrite, hwrite']
        exact .ok _ hkept
      · rw [hwrite, hwrite']
        exact .ok _ (.intro _ program hwritten)
  · exact .ok _ hkept

/-- **Bytes of files.** Apart from loading an env file, no step of a run looks at the bytes of a
file or at where the program lies. -/
theorem respected_resembles : Respected Machine.Resembles where
  tell text := by
    rintro m _ ⟨files, program, hfiles⟩
    exact .ok () (.intro files program hfiles)
  note message := by
    rintro m _ ⟨files, program, hfiles⟩
    exact .ok () (.intro files program hfiles)
  printOut text := by
    rintro m _ ⟨files, program, hfiles⟩
    exact .ok _ (.intro files program hfiles)
  checkTool m m' h e := h.checkTool_eq e
  createDirectory := respects_createDirectory
  start := respects_start
  writeFile := respects_writeFile

theorem respects_mustTell_resembles (text : String) :
    Respects Machine.Resembles (mustTell text) := by
  rintro m _ ⟨files, program, hfiles⟩
  rw [mustTell, mustTell]
  dsimp only
  rcases m.stderr.write text with ⟨_ | _, stream⟩
  · exact .error _ (.intro files program hfiles)
  · exact .ok _ (.intro files program hfiles)

/-! ## Counterparts -/

/-- The attempt without the environment of its program. -/
def Spawn.withoutEnvironment (s : Spawn) : Spawn := { s with environment := [] }

/-- The machines differ at most in their files and faults, in where the run stands in the files, in
what is told on standard error, and in the environments of the programs that were started. -/
inductive Machine.Counterpart (n : Machine) : Machine → Prop
  /-- Up to their environments the same programs were started, and all else is the same. -/
  | intro (files : FileSystem) (faults : List Fault) (here : Location) (stderr : Stream)
      (spawns : List Spawn) (h : spawns.map Spawn.withoutEnvironment
        = n.spawns.map Spawn.withoutEnvironment) :
    Counterpart n { n with
      files := files, faults := faults, workingDirectory := here, stderr := stderr
      spawns := spawns }

theorem Machine.Counterpart.afterSpawn {n n' : Machine} (h : n.Counterpart n') {r r' : Request}
    (hargv : r'.argv = r.argv) (hcapture : r'.capture = r.capture) :
    (n.afterSpawn r).Counterpart (n'.afterSpawn r') := by
  obtain ⟨files, faults, here, stderr, spawns, hspawns⟩ := h
  rw [Machine.afterSpawn, Machine.afterSpawn]
  dsimp only
  rw [n.applyAll_eq, Machine.applyAll_eq { n with
    files := files, faults := faults, workingDirectory := here, stderr := stderr
    spawns := spawns }]
  refine .intro _ _ _ _ _ ?_
  rw [List.map_append, List.map_append, hspawns]
  simp only [Spawn.withoutEnvironment, Machine.spawnOf, hargv, hcapture, List.map_cons]

theorem report_notStarted_eq {r r' : Request} (hargv : r'.argv = r.argv) (cause : SystemError) :
    (Failure.notStarted r' cause).report = (Failure.notStarted r cause).report := by
  obtain ⟨program, arguments, environment, capture⟩ := r
  obtain ⟨program', arguments', environment', capture'⟩ := r'
  obtain ⟨rfl, rfl⟩ : program' = program ∧ arguments' = arguments := List.cons.inj hargv
  rfl

theorem Machine.Counterpart.announce {n n' : Machine} (h : n.Counterpart n') {r r' : Request}
    (hargv : r'.argv = r.argv) (cause : SystemError) :
    (Steps.final (Failure.notStarted r cause).announce n).Counterpart
      (Steps.final (Failure.notStarted r' cause).announce n') := by
  obtain ⟨files, faults, here, stderr, spawns, hspawns⟩ := h
  have hfinal : ∀ (q : Request) (k : Machine),
      Steps.final (Failure.notStarted q cause).announce k = { k with
        stderr := (k.stderr.write ((Failure.notStarted q cause).report.message ++ "\n")).2
        journal := k.journal
          ++ ["dispatch failed: " ++ (Failure.notStarted q cause).report.line] } :=
    fun _ _ ↦ rfl
  rw [hfinal, hfinal, report_notStarted_eq hargv]
  exact .intro _ _ _ _ _ hspawns

/-! ## Commands with an env file -/

theorem exec_of_envFile : ∀ e ∈ table, e.envFile.isSome = true →
    e.action = .exec ∧ e.requiresTool = none := by decide

/-- What a run that has started its program comes to: the program has ended, or its failure to start
is announced. -/
inductive Launched (r : Request) (k : Machine) : Int → Machine → Prop
  /-- The program has ended. -/
  | ended (finished : Finished) (n : Machine) (h : r.start k = .ok (.ok finished) n) :
    Launched r k finished.status n
  /-- The program has not started. -/
  | refused (f : Failure) (l : Machine) (h : r.start k = .ok (.error f) l) :
    Launched r k 1 (Steps.final f.announce l)

/-- Nothing stands between a command without a tool or a schema and its program. -/
theorem Invocation.launched_of_run {i : Invocation} {e : Entry} {m n : Machine} {status : Int}
    (hfind : find? i.command = some e) (hexec : e.action = .exec) (htool : e.requiresTool = none)
    (h : i.run m = .ok status n) :
    ∃ r k, e.Approached i.trailing m r k ∧ Launched r k status n := by
  have hschema : e.action ≠ .schema := by
    rw [hexec]
    decide
  have hclear : e.Cleared m := by
    refine ⟨?_, fun he ↦ absurd he hschema⟩
    rw [htool]
    rintro tool ⟨⟩
  have hsame : ∀ {e'}, find? i.command = some e' → e = e' :=
    fun hfind' ↦ Option.some.inj (hfind.symm.trans hfind')
  rcases Invocation.run_eq_ok_iff.mp h with hends | ⟨f, l, hends, rfl, rfl⟩
  · cases hends with
    | helped hfind' he =>
      obtain rfl := hsame hfind'
      exact absurd (hexec.symm.trans he) (by decide)
    | ended hfind' he happroach hstart hsettle =>
      obtain rfl := hsame hfind'
      rw [Entry.settle_of_not_schema hschema] at hsettle
      obtain ⟨⟨⟩, rfl⟩ := EStateM.Result.ok.inj hsettle
      exact ⟨_, _, Entry.approached_of_approach happroach, .ended _ _ hstart⟩
  · cases hends with
    | unknown hfind' => exact absurd (hfind.symm.trans hfind') (Option.some_ne_none e)
    | unhelped hfind' he =>
      obtain rfl := hsame hfind'
      exact absurd (hexec.symm.trans he) (by decide)
    | blocked hfind' he happroach =>
      obtain rfl := hsame hfind'
      exact absurd hclear (Entry.not_cleared_of_approach happroach)
    | refused hfind' he happroach hstart =>
      obtain rfl := hsame hfind'
      exact ⟨_, _, Entry.approached_of_approach happroach, .refused _ _ hstart⟩
    | ended hfind' he happroach hstart hsettle =>
      obtain rfl := hsame hfind'
      rw [Entry.settle_of_not_schema hschema] at hsettle
      obtain ⟨⟨⟩, -⟩ := EStateM.Result.ok.inj hsettle

/-- Why the child does not start as the given program, if it does not. -/
def Child.refusal? (program : String) : Child → Option SystemError
  | .refused number text => some (.numbered number text (some program))
  | .failed cause => some cause
  | _ => none

theorem Launched.by_child {r : Request} {k n : Machine} {status : Int} (h : Launched r k status n) :
    (∃ raw written interrupts effects,
        k.children.headD .quiet = .exits raw written interrupts effects ∧
          status = reportedStatus raw ∧ n = k.afterSpawn r) ∨
      ∃ cause, (k.children.headD .quiet).refusal? r.program = some cause ∧ status = 1 ∧
        n = Steps.final (Failure.notStarted r cause).announce (k.afterSpawn r) := by
  cases h with
  | ended finished n hstart =>
    obtain ⟨raw, written, interrupts, effects, output, hchild, -, rfl, rfl⟩ :=
      start_eq_answer_iff.mp hstart
    exact .inl ⟨raw, written, interrupts, effects, hchild, rfl, rfl⟩
  | refused f l hstart =>
    obtain ⟨cause, hrefuses, rfl, rfl⟩ := start_eq_failure_iff.mp hstart
    refine .inr ⟨cause, ?_, rfl, rfl⟩
    generalize k.children.headD .quiet = child at hrefuses
    cases hrefuses <;> rfl

theorem Launched.files_eq {r : Request} {k n : Machine} {status : Int} (h : Launched r k status n) :
    n.files = (k.applyAll (k.children.headD .quiet).effects).files := by
  rcases h.by_child with ⟨_, _, _, _, -, -, rfl⟩ | ⟨cause, -, -, rfl⟩
  · rfl
  · have hkept : Keeps Machine.files (Failure.notStarted r cause).announce :=
      keeps_announce (fun _ _ ↦ rfl) (fun _ _ ↦ rfl) _
    exact hkept (k.afterSpawn r)

/-- Two launched runs on counterparts, with requests that differ in their environments, are
counterparts again. -/
theorem Launched.counterpart {r r' : Request} {k k' n n' : Machine} {status status' : Int}
    (h : Launched r k status n) (h' : Launched r' k' status' n') (hk : k.Counterpart k')
    (hargv : r'.argv = r.argv) (hcapture : r'.capture = r.capture) :
    status' = status ∧ n.Counterpart n' := by
  have hnext := hk.afterSpawn hargv hcapture
  have hprogram : r'.program = r.program := (List.cons.inj hargv).1
  have hchildren : k'.children = k.children := by
    obtain ⟨⟩ := hk
    rfl
  have h' := h'.by_child
  rw [hchildren, hprogram] at h'
  -- The child is the same, so either both programs have ended or neither has started.
  rcases h.by_child with ⟨raw, output, interrupts, effects, hchild, rfl, rfl⟩ |
    ⟨cause, hchild, rfl, rfl⟩
  · rw [hchild] at h'
    rcases h' with ⟨raw', _, _, _, hsame, rfl, rfl⟩ | ⟨_, hnone, -⟩
    · obtain ⟨rfl, -⟩ := Child.exits.inj hsame
      exact ⟨rfl, hnext⟩
    · contradiction
  · rcases h' with ⟨_, _, _, _, hexits, -⟩ | ⟨cause', hsame, rfl, rfl⟩
    · rw [hexits] at hchild
      contradiction
    · obtain rfl : cause = cause' := Option.some.inj (hchild.symm.trans hsame)
      exact ⟨rfl, hnext.announce hargv cause⟩

/-! ## Influence -/

/-- **What files can change.** Take a command with an env file and two machines that differ in their
files and faults, the env file and whether it can be read among them. If both runs get to their
ends, they exit with the same status, their machines are counterparts, and the files of each are as
the program has left them.

Without an env file, take two machines that differ in the bytes of their files and in where the
program itself lies. Both runs end in the same way, with the same attempts to start a program, and
with the same text on both streams. -/
theorem influence_of_files (words : List String) :
    let i := Invocation.ofWords words
    (∀ e name, find? i.command = some e → e.envFile = some name →
      ∀ (m n n' : Machine) (files : FileSystem) (faults : List Fault) (status status' : Int),
        i.run m = .ok status n →
        i.run { m with files := files, faults := faults } = .ok status' n' →
          status' = status ∧ n.Counterpart n' ∧
            n.files = (m.applyAll (m.children.headD .quiet).effects).files ∧
            n'.files = (Machine.applyAll { m with files := files, faults := faults }
              (m.children.headD .quiet).effects).files) ∧
    ((∀ e, find? i.command = some e → e.envFile = none) →
      ∀ (m : Machine) (files : FileSystem) (program : Path), m.files.SameOutline files →
        let m' := { m with files := files, programFile := program }
        Steps.outcome i.run m' = Steps.outcome i.run m ∧
          (Steps.final i.run m).Resembles (Steps.final i.run m')) := by
  intro i
  constructor
  · intro e name hfind henv m n n' files faults status status' hrun hrun'
    obtain ⟨hmem, -⟩ := find?_eq_some_iff.mp hfind
    obtain ⟨hexec, htool⟩ := exec_of_envFile e hmem (by rw [henv]; rfl)
    obtain ⟨r, k, hready, hlaunched⟩ := Invocation.launched_of_run hfind hexec htool hrun
    obtain ⟨r', k', hready', hlaunched'⟩ := Invocation.launched_of_run hfind hexec htool hrun'
    have hargv : r'.argv = r.argv := by
      have hprogram : r'.program = r.program :=
        Option.some.inj (hready'.program.symm.trans hready.program)
      rw [Request.argv, Request.argv, hprogram, hready.arguments, hready'.arguments]
    have hcapture : r'.capture = r.capture := hready'.capture.trans hready.capture.symm
    have hk := hready.machine_of_exec hexec
    have hk' := hready'.machine_of_exec hexec
    have hcounterpart : k.Counterpart k' := by
      rw [hk, hk']
      exact .intro files faults m.workingDirectory k'.stderr m.spawns rfl
    obtain ⟨hstatus, hends⟩ := hlaunched.counterpart hlaunched' hcounterpart hargv hcapture
    refine ⟨hstatus, hends, ?_, ?_⟩
    · have hchildren : k.children = m.children := by rw [hk]
      rw [hlaunched.files_eq, hchildren]
      exact (Machine.applyAll_congr (by rw [hk]) (by rw [hk]) _).1
    · have hchildren : k'.children = m.children := by rw [hk']
      rw [hlaunched'.files_eq, hchildren]
      exact (Machine.applyAll_congr (by rw [hk']) (by rw [hk']) _).1
  · intro hplain m files program hfiles m'
    have hresembles : m.Resembles m' := .intro files program hfiles
    have hoverlay : ∀ e, find? i.command = some e → Respects Machine.Resembles e.overlay := by
      intro e hfind
      rw [Entry.overlay_of_envFile_none (hplain e hfind)]
      exact .pure _
    have hrun := respected_resembles.run hoverlay
    exact ⟨hrun.outcome_eq hresembles, hrun.final hresembles⟩

/-- The program of `dev` ends with 3, once without an env file and once with the binding `A=1`. -/
theorem influence_of_files_dev :
    let m : Machine := { children := [.exits 3 [] [] []] }
    let bound : FileSystem := ⟨.branch ".env.local" (some (.file [65, 61, 49] false)) .empty .empty⟩
    ∃ n n', (Invocation.ofWords ["dev"]).run m = .ok 3 n ∧
      (Invocation.ofWords ["dev"]).run { m with files := bound } = .ok 3 n' ∧
      n.Counterpart n' ∧ n'.files = bound := by
  intro m bound
  have hrun : ∀ files : FileSystem,
      files.nodeAt (Path.route [] ⟨.root, [".env.local"]⟩) ≠ .error .nameTooLong →
        ∃ n, (Invocation.ofWords ["dev"]).run { m with files := files } = .ok 3 n := by
    intro files hshort
    have hchild : ({ m with files := files } : Machine).children.headD .quiet = .exits 3 [] [] [] :=
      rfl
    have hload : ∀ name, table[2].envFile = some name →
        ∃ loaded, ({ m with files := files } : Machine).envOverlay name = .ok loaded := by
      rintro _ ⟨rfl⟩
      exact Machine.exists_envOverlay_eq_ok (Machine.envPath_of_programFile_root rfl rfl) hshort
    have hclear : Entry.Cleared table[2] { m with files := files } :=
      ⟨by rintro _ ⟨⟩, by rintro ⟨⟩⟩
    exact Invocation.exists_run_eq_ok rfl rfl hclear rfl hload hchild
  have hlost : FileSystem.nodeAt {} (Path.route [] ⟨.root, [".env.local"]⟩) = .error .notFound :=
    FileSystem.nodeAt_of_vacant (.vacant (by decide) rfl) rfl
  have hfound : bound.nodeAt (Path.route [] ⟨.root, [".env.local"]⟩)
      = .ok (.file [65, 61, 49] false) :=
    FileSystem.nodeAt_of_reaches (.file (by decide) rfl) rfl
  obtain ⟨n, hn⟩ := hrun {} (by simp [hlost])
  obtain ⟨n', hn'⟩ := hrun bound (by simp [hfound])
  obtain ⟨hsame, -⟩ := influence_of_files ["dev"]
  obtain ⟨-, hcounterpart, -, hfiles⟩ :=
    hsame table[2] ".env.local" rfl rfl m n n' bound [] 3 3 hn hn'
  exact ⟨n, n', hn, hn', hcounterpart, hfiles⟩

end Runbook
