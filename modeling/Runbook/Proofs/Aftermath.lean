import Runbook.Proofs.ChildEnvironment
import Runbook.Proofs.ExitStatus
import Runbook.Proofs.FileSystem.Growth

/-!
# What a failed run leaves behind

A run that fails is reported and exits with 1, and what it did before stays done. There is little of
that. Looking up a command, looking for its tool, writing the help and loading an env file change
nothing but what can be read on the streams. A program that does not start has changed nothing
either, but its child is gone from the queue; and if its output was to be stored as the schema, the
directory for that has been created before. Where this directory cannot be created, some of those
above it may have been, and no program is started.

So the kind of the failure tells what is left behind, and that is what `Aftermath` says. It is shown
by going through the endings of a run once. A schema that cannot be written is not among the kinds:
its program has run, and may have left anything.
-/

namespace Runbook

open Command

/-- Every reason for which a program does not start is reported as the same kind of failure. -/
theorem kind_notStarted (r : Request) (cause : SystemError) :
    (Failure.notStarted r cause).report.kind = "SpawnError" := by
  rw [Failure.report]
  split
  · rfl
  · rfl

/-- What is different on the machine `n`, behind a run from `m` that has failed with `f`. -/
structure Invocation.Aftermath (i : Invocation) (m n : Machine) (f : Failure) : Prop where
  /-- The environment is as before. -/
  environment : n.environment = m.environment
  /-- A word that selects no command, a missing tool and a help that cannot be written have no
  effect on the files, and no child is taken from the queue. -/
  idle : f.report.kind ∈ ["UnknownCommandError", "MissingToolError", "StdoutWriteError"] →
    n.files = m.files ∧ n.children = m.children
  /-- A program that does not start leaves the files as they are, up to the directories on the way
  to the schema if its output was to be stored. -/
  notStarted : f.report.kind = "SpawnError" → ∃ e, find? i.command = some e ∧
    (e.action = .exec ∧ n.files = m.files ∨ e.action = .schema ∧
      m.files.GrownAlong n.files m.workingDirectory (Path.ofString schemaDirectory))
  /-- If the directory for the schema cannot be created, nothing is started, and at most directories
  above it are new. -/
  noDirectory : f.report.kind = "DirectoryCreateError" →
    n.spawns = m.spawns ∧ n.children = m.children ∧
      m.files.GrownAlong n.files m.workingDirectory (Path.ofString schemaDirectory).parent

/-- The aftermath of each ending. It is about a few parts of the machine only, so the machine may be
another one than that of the ending if it has these in common with it. -/
theorem Invocation.aftermath_of_ends {i : Invocation} {m k n : Machine} {f : Failure}
    (h : Ends i.command i.trailing m (.error f) k) (henvironment : n.environment = m.environment)
    (hfiles : n.files = k.files) (hchildren : n.children = k.children)
    (hspawns : n.spawns = k.spawns) : i.Aftermath m n f := by
  -- In each case the kind of the failure is known, and what is said of other kinds is vacuous.
  cases h with
  | unknown hfind =>
    exact ⟨henvironment, fun _ ↦ ⟨hfiles, hchildren⟩, by simp [Failure.report],
      by simp [Failure.report]⟩
  | unhelped hfind he hwrite =>
    exact ⟨henvironment, fun _ ↦ ⟨hfiles, hchildren⟩, by simp [Failure.report],
      by simp [Failure.report]⟩
  | blocked hfind he happroach =>
    rcases Entry.approach_of_failure happroach with
      ⟨tool, -, -, rfl, rfl⟩ | ⟨-, cause, stream, hcause, rfl, rfl⟩
    · exact ⟨henvironment, fun _ ↦ ⟨hfiles, hchildren⟩, by simp [Failure.report],
        by simp [Failure.report]⟩
    · refine ⟨henvironment, by simp [Failure.report], by simp [Failure.report],
        fun _ ↦ ⟨hspawns, hchildren, ?_⟩⟩
      rw [hfiles]
      exact (m.files.grownAlong_addDirectories m.faults m.workingDirectory _).2 cause hcause
  | @refused e _ _ _ _ hfind he happroach hstart =>
    obtain ⟨⟨cause, rfl⟩, hnever, rfl⟩ := start_of_failure hstart
    have hready := Entry.approached_of_approach happroach
    rw [hready.children_eq] at hnever
    refine ⟨henvironment, by simp [kind_notStarted], fun _ ↦ ⟨_, hfind, ?_⟩,
      by simp [kind_notStarted]⟩
    rw [hfiles, (hready.afterSpawn_of_neverRuns hnever).1, hready.files]
    rcases haction : e.action
    · exact .inl ⟨rfl, if_neg (by decide)⟩
    · exact absurd haction he
    · rw [if_pos rfl]
      exact .inr ⟨rfl, (m.files.grownAlong_addDirectories m.faults m.workingDirectory _).1⟩
  | ended hfind he happroach hstart hsettle =>
    obtain ⟨-, cause, rfl⟩ := Entry.settle_of_failure hsettle
    exact ⟨henvironment, by simp [Failure.report], by simp [Failure.report],
      by simp [Failure.report]⟩

/-- A run that fails exits with 1, and what announces the failure has no part in the aftermath. -/
theorem Invocation.aftermath_of_failure {i : Invocation} {m k : Machine} {f : Failure}
    (hrun : Command.run i.command i.trailing m = .ok (.error f) k) :
    i.run m = .ok 1 (Steps.final i.run m) ∧ i.Aftermath m (Steps.final i.run m) f := by
  have hend := Invocation.run_of_failure hrun
  refine ⟨Steps.eq_final_of_ok hend, ?_⟩
  have hkept : ∀ {γ : Type} {part : Machine → γ}, IgnoresStderr part → IgnoresJournal part →
      part (Steps.final i.run m) = part k := by
    intro γ part herr hjournal
    rw [Steps.final_of_ok hend]
    exact keeps_announce herr hjournal f k
  exact Invocation.aftermath_of_ends (ends_of_run hrun) (i.keeps_environment_run m)
    (hkept (fun _ _ ↦ rfl) fun _ _ ↦ rfl) (hkept (fun _ _ ↦ rfl) fun _ _ ↦ rfl)
    (hkept (fun _ _ ↦ rfl) fun _ _ ↦ rfl)

/-- Between a command that hands the status of its program on and the end of the program, nothing
happens to the files but what the program does to them. -/
theorem Command.files_of_exec {word : String} {trailing : List String} {e : Entry} {m n : Machine}
    {status : Int} (hfind : find? word = some e) (hexec : e.action = .exec)
    (hrun : Command.run word trailing m = .ok (.ok status) n) :
    n.files = (m.applyAll (m.children.headD .quiet).effects).files := by
  have hschema : e.action ≠ .schema := by
    rw [hexec]
    decide
  cases ends_of_run hrun with
  | helped hfind' he =>
    obtain rfl := Option.some.inj (hfind.symm.trans hfind')
    exact absurd (hexec.symm.trans he) (by decide)
  | ended hfind' he happroach hstart hsettle =>
    obtain rfl := Option.some.inj (hfind.symm.trans hfind')
    rw [Entry.settle_of_not_schema hschema] at hsettle
    obtain ⟨-, rfl⟩ := EStateM.Result.ok.inj hsettle
    obtain ⟨-, hn⟩ := start_eq_ok_iff.mp hstart
    have hready := Entry.approached_of_approach happroach
    have hfiles := hready.afterSpawn_eq.1
    rw [hready.files, if_neg hschema] at hfiles
    rw [hn]
    exact hfiles

/-- **Aftermath.** A run that fails exits with 1, and what it leaves behind is told by the kind of
its failure. A command that only hands on the status of its program, and does so, leaves the files
as its program has left them. -/
theorem aftermath_of_run (words : List String) (m : Machine) :
    let i := Invocation.ofWords words
    let n := Steps.final i.run m
    (∀ f k, Command.run i.command i.trailing m = .ok (.error f) k →
      i.run m = .ok 1 n ∧ i.Aftermath m n f) ∧
    ∀ e status k, find? i.command = some e → e.action = .exec →
      Command.run i.command i.trailing m = .ok (.ok status) k →
        i.run m = .ok status n ∧
          n.files = (m.applyAll (m.children.headD .quiet).effects).files := by
  intro i n
  refine ⟨fun f k hrun ↦ Invocation.aftermath_of_failure hrun, ?_⟩
  intro e status k hfind hexec hrun
  have hend := Invocation.run_of_answer hrun
  refine ⟨Steps.eq_final_of_ok hend, ?_⟩
  have hn : n = k := Steps.final_of_ok hend
  rw [hn]
  exact Command.files_of_exec hfind hexec hrun

/-- A program of `check` that may not be executed leaves all as it was, and is gone from the
queue. -/
theorem aftermath_of_run_check :
    let m : Machine := { children := [.refused 13 "Permission denied"] }
    let n := Steps.final (Invocation.ofWords ["check"]).run m
    ∃ f k, Command.run "check" [] m = .ok (.error f) k ∧ f.report.kind = "SpawnError" ∧
      (Invocation.ofWords ["check"]).run m = .ok 1 n ∧
      n.environment = m.environment ∧ n.files = m.files := by
  intro m n
  obtain ⟨f, k, hrun, hkind⟩ :
      ∃ f k, Command.run "check" [] m = .ok (.error f) k ∧ f.report.kind = "SpawnError" :=
    ⟨_, _, rfl, rfl⟩
  obtain ⟨hend, haftermath⟩ := (aftermath_of_run ["check"] m).1 f k hrun
  obtain ⟨e, hfind, hfiles⟩ := haftermath.notStarted hkind
  obtain ⟨e', hfind', hexec⟩ : ∃ e, find? "check" = some e ∧ e.action = .exec := ⟨_, rfl, rfl⟩
  obtain rfl : e = e' := Option.some.inj (hfind.symm.trans hfind')
  rcases hfiles with ⟨-, hfiles⟩ | ⟨hschema, -⟩
  · exact ⟨f, k, hrun, hkind, hend, haftermath.environment, hfiles⟩
  · rw [hexec] at hschema
    contradiction

end Runbook
