import Runbook.Proofs.Endings
import Runbook.Proofs.SideBySide

/-!
# What becomes of diagnostics

A run tells things on standard error all the way: what was found in an env file, what failed, how
to get help. None of these writes is looked at again. So a standard error that refuses everything
changes nothing but itself, and in particular the texts that are told after a refused one are the
same (`Machine.Told`). Standard output is written by the help only, and no other command looks at
it at all.

Both facts put two runs side by side, on machines that share their scene and differ in one stream.
The steps that look at the scene are dealt with by `Offstage`; what is left are the writes, and the
start of a program, which leaves the streams alone (`Machine.afterSpawn_withStreams`).
-/

namespace Runbook

open Command

/-! ## Streams and programs -/

theorem Machine.afterSpawn_withStreams (m : Machine) (stdout stderr : Stream) (r : Request) :
    Machine.afterSpawn { m with stdout := stdout, stderr := stderr } r
      = { m.afterSpawn r with stdout := stdout, stderr := stderr } := by
  obtain ⟨hfiles, hhere⟩ := Machine.applyAll_congr
    (m := { m with stdout := stdout, stderr := stderr }) (k := m) rfl rfl
    (m.children.headD .quiet).effects
  rw [afterSpawn, afterSpawn, m.applyAll_eq,
    Machine.applyAll_eq { m with stdout := stdout, stderr := stderr }, hfiles, hhere]
  rfl

@[simp] theorem Machine.stdout_afterSpawn (m : Machine) (r : Request) :
    (m.afterSpawn r).stdout = m.stdout := by
  rw [afterSpawn, m.applyAll_eq]

@[simp] theorem Machine.stderr_afterSpawn (m : Machine) (r : Request) :
    (m.afterSpawn r).stderr = m.stderr := by
  rw [afterSpawn, m.applyAll_eq]

/-! ## Standard error -/

/-- The stream after some texts are written to it, whether or not they arrive. -/
def Stream.writeAll (s : Stream) (texts : List String) : Stream :=
  texts.foldl (fun s text ↦ (s.write text).2) s

theorem Stream.writeAll_concat (s : Stream) (texts : List String) (text : String) :
    s.writeAll (texts ++ [text]) = ((s.writeAll texts).write text).2 := by
  rw [writeAll, List.foldl_append]
  rfl

/-- The same texts have been told on two machines, whose standard errors were `s` and `s'` at the
beginning. All else is the same. -/
inductive Machine.Told (s s' : Stream) (m : Machine) : Machine → Prop
  /-- The texts were written to both streams. -/
  | intro (texts : List String) (h : m.stderr = s.writeAll texts) :
    Told s s' m { m with stderr := s'.writeAll texts }

section Told

variable {s s' : Stream}

theorem offstage_told : Offstage (Machine.Told s s') where
  scene := by
    rintro m _ ⟨texts, -⟩
    exact .intro m.children m.stdout _ m.spawns m.journal
  files := by
    rintro m _ ⟨texts, h⟩ files
    exact .intro texts h

theorem respects_tell_told (text : String) : Respects (Machine.Told s s') (tell text) := by
  rintro m _ ⟨texts, h⟩
  have hnext : Machine.Told s s' { m with stderr := (m.stderr.write text).2 }
      { m with stderr := s'.writeAll (texts ++ [text]) } :=
    .intro (texts ++ [text]) (by rw [h, Stream.writeAll_concat])
  rw [Stream.writeAll_concat] at hnext
  exact .ok () hnext

theorem respected_told : Respected (Machine.Told s s') where
  tell := respects_tell_told
  note message := by
    rintro m _ ⟨texts, h⟩
    exact .ok () (.intro texts h)
  checkTool := offstage_told.checkTool
  createDirectory := offstage_told.createDirectory
  start r := by
    refine respects_start_of_afterSpawn ?_ ?_
    · rintro m _ ⟨texts, -⟩
      rfl
    · rintro m _ ⟨texts, h⟩
      rw [m.afterSpawn_withStreams m.stdout (s'.writeAll texts) r, ← m.stdout_afterSpawn r]
      exact .intro texts (by rw [m.stderr_afterSpawn, h])
  writeFile := offstage_told.writeFile
  printOut text := by
    rintro m _ ⟨texts, h⟩
    exact .ok _ (.intro texts h)

end Told

/-! ## Standard output -/

/-- The machine is the other one with `stdout` for its standard output. -/
inductive Machine.WithStdout (stdout : Stream) (m : Machine) : Machine → Prop
  /-- All else is the same. -/
  | intro : WithStdout stdout m { m with stdout := stdout }

theorem offstage_withStdout (stdout : Stream) : Offstage (Machine.WithStdout stdout) where
  scene := by
    rintro m _ ⟨⟩
    exact .intro m.children stdout m.stderr m.spawns m.journal
  files := by
    rintro m _ ⟨⟩ files
    exact .intro

theorem respectedBeyondHelp_withStdout (stdout : Stream) :
    RespectedBeyondHelp (Machine.WithStdout stdout) where
  tell text := by
    rintro m _ ⟨⟩
    exact .ok () .intro
  note message := by
    rintro m _ ⟨⟩
    exact .ok () .intro
  checkTool := (offstage_withStdout stdout).checkTool
  createDirectory := (offstage_withStdout stdout).createDirectory
  start r := by
    refine respects_start_of_afterSpawn ?_ ?_
    · rintro m _ ⟨⟩
      rfl
    · rintro m _ ⟨⟩
      rw [m.afterSpawn_withStreams stdout m.stderr r, ← m.stderr_afterSpawn r]
      exact .intro
  writeFile := (offstage_withStdout stdout).writeFile

/-! ## Whole runs -/

/-- **Diagnostics.** Whatever standard error makes of what is written to it, a run comes to the same
outcome on the same machine, up to standard error, and tells the same texts. A run of any other
command than the help comes to the same outcome whatever state standard output is in, and leaves
that as it was. -/
theorem diagnostics_inert (words : List String) (m : Machine) :
    let run := (Invocation.ofWords words).run
    (∀ stderr : Stream,
      run.outcome { m with stderr := stderr } = run.outcome m ∧
        ∃ texts, (run.final m).stderr = m.stderr.writeAll texts ∧
          run.final { m with stderr := stderr }
            = { run.final m with stderr := stderr.writeAll texts }) ∧
    ((∀ e, find? (Invocation.ofWords words).command = some e → e.action ≠ .help) →
      ∀ stdout : Stream,
        run.outcome { m with stdout := stdout } = run.outcome m ∧
          run.final { m with stdout := stdout } = { run.final m with stdout := stdout }) := by
  intro run
  constructor
  · intro stderr
    have hrespects : Respects (Machine.Told m.stderr stderr) run :=
      respected_told.run fun e _ ↦ offstage_told.overlay respects_tell_told e
    have hR : Machine.Told m.stderr stderr m { m with stderr := stderr } := .intro [] rfl
    refine ⟨hrespects.outcome_eq hR, ?_⟩
    have hfinal := hrespects.final hR
    generalize run.final m = n, run.final { m with stderr := stderr } = n' at hfinal
    obtain ⟨texts, htexts⟩ := hfinal
    exact ⟨texts, htexts, rfl⟩
  · intro hhelp stdout
    have hrespected := respectedBeyondHelp_withStdout stdout
    have hrespects : Respects (Machine.WithStdout stdout) run := by
      refine hrespected.run ?_
      rw [Command.run]
      rcases hfind : find? (Invocation.ofWords words).command with _ | e
      · exact .pure _
      · exact hrespected.runEntry_of_spawns (Entry.spawns_iff.mpr (hhelp e hfind))
          ((offstage_withStdout stdout).overlay hrespected.tell e) _
    refine ⟨hrespects.outcome_eq .intro, ?_⟩
    have hfinal := hrespects.final (m := m) .intro
    generalize run.final m = n, run.final { m with stdout := stdout } = n' at hfinal
    obtain ⟨⟩ := hfinal
    rfl

/-- The program of `check` is refused. The exit status is 1, whether or not that can be told, and
with a standard output that refuses everything as well. -/
theorem diagnostics_inert_check :
    let m : Machine := { children := [.refused 13 "Permission denied"] }
    let run := (Invocation.ofWords ["check"]).run
    (∀ e, find? "check" = some e → e.action ≠ .help) ∧
      run.outcome { m with stderr := ⟨.writeFails, ""⟩ } = .ok 1 ∧
      run.outcome { m with stdout := ⟨.writeFails, ""⟩ } = .ok 1 := by
  intro m run
  have hoff : ∀ e, find? "check" = some e → e.action ≠ .help := by
    rintro _ ⟨rfl⟩
    decide
  have hrun : run.outcome m = .ok 1 := rfl
  obtain ⟨herr, hout⟩ := diagnostics_inert ["check"] m
  exact ⟨hoff, (herr _).1.trans hrun, (hout hoff _).1.trans hrun⟩

end Runbook
