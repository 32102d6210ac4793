import Runbook.Proofs.ExitStatus
import Runbook.Proofs.FileSystem.Storing

/-!
# How the schema is stored

A command that stores a schema creates a directory, runs a program, and writes what that has put out
to a file. Each of the three can fail, and the program may do to the files what it likes, the
directory and the file included. So there are three stages at which the files can be left: as they
were found, with the directories; then with the changes of the program too; and then with the file
written, which is the one change that the command makes after its program.

`run_of_noDirectory`, `final_run_of_neverRuns`, `run_of_broken` and `run_of_received` tell these
stages apart for any command that stores a schema and is `Equipped` for it, whatever its program.
What is written is what the last wait for the program has handed over. The file is looked up only
after that, through the links that are there by then, and reading it through the same links
afterwards gives what was written (`FileSystem.stores_of_write`). A write that fails after the file
has been opened leaves the first bytes of it, as a shell's redirection does
(`Machine.Spoils.stores`).
-/

namespace Runbook

open Command

/-! ## Programs that do not run -/

theorem final_start_bind_of_neverRuns {β : Type} {r : Request} {m : Machine}
    (h : (m.children.headD .quiet).NeverRuns) (f : Finished → Run β) :
    Steps.final (r.start >>= f : Run β) m = m.afterSpawn r := by
  rw [← final_start, Steps.final, Run.bind_apply, Steps.final]
  rcases hstart : r.start m with ⟨failure | finished, n⟩ | ⟨escape, n⟩
  · rfl
  · obtain ⟨raw, written, interrupts, effects, -, hchild, -⟩ := start_eq_answer_iff.mp hstart
    exact absurd hchild (h raw written interrupts effects)
  · rfl

/-! ## The stages of a command that stores a schema -/

/-- The command stores a schema, its tool is found, and no env file can make the run leave. -/
structure Command.Entry.Equipped (e : Entry) (m : Machine) : Prop where
  /-- The command stores a schema. -/
  action : e.action = .schema
  /-- It has a program. -/
  program : ∃ program, e.program = some program
  /-- A required tool is found. -/
  tool : ∀ tool, e.requiresTool = some tool → (m.findTool? tool).isSome = true
  /-- An env file makes an overlay. -/
  load : ∀ name, e.envFile = some name → ∃ loaded, m.envOverlay name = .ok loaded

namespace Command.Entry

variable {e : Entry} {m : Machine}

theorem exists_settle_eq_ok (e : Entry) (finished : Finished) (m : Machine) :
    ∃ result n, e.settle finished m = .ok result n := by
  by_cases he : e.action = .schema
  · obtain ⟨written, n, hwrite⟩ :=
      exists_writeFile_eq_ok (p := Path.ofString schemaFile) (by decide) finished.output m
    rw [settle, he]
    dsimp only
    rw [Run.bind_apply, hwrite]
    rcases written with failure | p
    · exact ⟨_, _, rfl⟩
    · exact ⟨_, _, rfl⟩
  · rw [settle_of_not_schema he]
    exact ⟨_, _, rfl⟩

namespace Equipped

theorem spawns (h : e.Equipped m) : e.spawns = true := by
  rw [spawns_iff, h.action]
  decide

theorem exists_approach (h : e.Equipped m)
    (hmade : (m.withDirectory (Path.ofString schemaDirectory)).2 = .ok ())
    (trailing : List String) :
    ∃ r k, e.approach trailing m = .ok (.ok r) k ∧ e.Approached trailing m r k := by
  obtain ⟨program, hprogram⟩ := h.program
  obtain ⟨r, k, happroach⟩ :=
    exists_approach_of_cleared ⟨h.tool, fun _ ↦ hmade⟩ hprogram h.load trailing
  exact ⟨r, k, happroach, approached_of_approach happroach⟩

theorem run_of_noDirectory (h : e.Equipped m) {cause : SystemError}
    (hmade : (m.withDirectory (Path.ofString schemaDirectory)).2 = .error cause)
    (trailing : List String) :
    ∃ stream, e.run trailing m = .ok (.error (.noDirectory (Path.ofString schemaDirectory) cause))
      { m with
        stderr := stream, files := (m.withDirectory (Path.ofString schemaDirectory)).1 } := by
  obtain ⟨program, hprogram⟩ := h.program
  obtain ⟨failure | r, n, happroach⟩ := exists_approach_eq_ok hprogram h.load trailing
  · rcases approach_of_failure happroach with
      ⟨tool, hrequires, hnone, -⟩ | ⟨-, cause', stream, hcause, rfl, rfl⟩
    · have hfound := h.tool tool hrequires
      rw [hnone] at hfound
      contradiction
    · obtain rfl := Except.error.inj (hmade.symm.trans hcause)
      refine ⟨stream, ?_⟩
      rw [run_eq_approach h.spawns, Run.bind_apply, happroach]
  · rw [(approached_of_approach happroach).cleared.directory h.action] at hmade
    contradiction

/-- If the program does not run, the directories are all that is new. -/
theorem final_run_of_neverRuns (h : e.Equipped m)
    (hnever : (m.children.headD .quiet).NeverRuns) (trailing : List String) :
    (Steps.final (e.run trailing) m).files
        = (m.withDirectory (Path.ofString schemaDirectory)).1 ∧
      (Steps.final (e.run trailing) m).workingDirectory = m.workingDirectory := by
  rcases hmade : (m.withDirectory (Path.ofString schemaDirectory)).2 with cause | _
  · obtain ⟨stream, hrun⟩ := h.run_of_noDirectory hmade trailing
    rw [Steps.final_of_ok hrun]
    exact ⟨rfl, rfl⟩
  · obtain ⟨r, k, happroach, hready⟩ := h.exists_approach hmade trailing
    have hfinal : Steps.final (e.run trailing) m = k.afterSpawn r := by
      rw [← final_start_bind_of_neverRuns (by rw [hready.children_eq]; exact hnever) e.settle,
        Steps.final, run_apply_of_approach h.spawns happroach, Steps.final]
    obtain ⟨hfiles, hhere⟩ := hready.afterSpawn_of_neverRuns hnever
    rw [hfinal, hfiles, hready.files, if_pos h.action]
    exact ⟨rfl, hhere⟩

/-- If the wait for the program is left, the files stay as the program has left them. -/
theorem run_of_broken (h : e.Equipped m)
    (hmade : (m.withDirectory (Path.ofString schemaDirectory)).2 = .ok ())
    {raw : Int} {written : List UInt8} {interrupts : List Interrupt} {effects : List Effect}
    (hchild : m.children.headD .quiet = .exits raw written interrupts effects) {escape : Escape}
    (hbroken : Child.received true written interrupts = .error escape) (trailing : List String) :
    ∃ n, e.run trailing m = .error escape n ∧ n.files = (m.beforeStore effects).files := by
  obtain ⟨r, k, happroach, hready⟩ := h.exists_approach hmade trailing
  exact ⟨_, Entry.run_of_broken h.action happroach hchild hbroken,
    (hready.afterSpawn_of_schema h.action hchild).2.1⟩

/-- If the wait for the program hands something over, that is written to the file that the path
means by then, or the write fails. -/
theorem run_of_received (h : e.Equipped m)
    (hmade : (m.withDirectory (Path.ofString schemaDirectory)).2 = .ok ())
    {raw : Int} {written output : List UInt8} {interrupts : List Interrupt} {effects : List Effect}
    (hchild : m.children.headD .quiet = .exits raw written interrupts effects)
    (hreceived : Child.received true written interrupts = .ok output) (trailing : List String) :
    let after := m.beforeStore effects
    let file := Path.ofString schemaFile
    ∃ result n, e.run trailing m = .ok result n ∧
      (∃ s, n.spawns = m.spawns ++ [s] ∧ s.capture = true) ∧
      n.workingDirectory = after.workingDirectory ∧
      (after.CanWrite file output ∧ result = .ok (reportedStatus raw) ∧
          after.files.write (after.route file) output = .ok n.files ∨
        ¬after.CanWrite file output ∧ (∃ cause, result = .error (.notWritten file cause)) ∧
          after.Spoils file output n.files) := by
  intro after file
  obtain ⟨r, k, happroach, hready⟩ := h.exists_approach hmade trailing
  have hcapture : r.capture = true := hready.captures h.action
  have hstart : r.start k = .ok (.ok ⟨reportedStatus raw, output⟩) (k.afterSpawn r) :=
    start_of_exits (hready.children_eq ▸ hchild) (hcapture ▸ hreceived)
  obtain ⟨result, n, hsettle⟩ :=
    exists_settle_eq_ok e ⟨reportedStatus raw, output⟩ (k.afterSpawn r)
  have hrun : e.run trailing m = .ok result n := by
    rw [run_apply_of_approach h.spawns happroach, Run.bind_apply, hstart]
    exact hsettle
  have hkept : ∀ {γ : Type} (part : Machine → γ), IgnoresFiles part →
      part n = part (k.afterSpawn r) := by
    intro γ part hfiles
    rw [← Steps.final_of_ok hsettle]
    exact keeps_settle hfiles e _ _
  -- The file is written on `k.afterSpawn r`, which has its files and its place from `after`.
  obtain ⟨hfaults, hfiles, hhere⟩ := hready.afterSpawn_of_schema h.action hchild
  obtain ⟨hsame, hwrite⟩ := canWrite_congr hfaults hfiles hhere file output
  refine ⟨result, n, hrun, ⟨k.spawnOf r (k.children.headD .quiet), ?_, hcapture⟩,
    (hkept Machine.workingDirectory fun _ _ ↦ rfl).trans hhere, ?_⟩
  · rw [hkept Machine.spawns fun _ _ ↦ rfl, ← hready.spawns_eq]
    rfl
  · rcases settle_of_schema h.action hsettle with
      ⟨hcan, hstatus, hwritten⟩ | ⟨hcannot, hfailure, hspoiled⟩
    · exact .inl ⟨hsame.mp hcan, hstatus, hwrite.symm.trans hwritten⟩
    · exact .inr ⟨fun hcan ↦ hcannot (hsame.mpr hcan), hfailure,
        hspoiled.congr hfaults hfiles hhere⟩

end Equipped

end Command.Entry

/-! ## From the command to the run -/

namespace Invocation

variable {i : Invocation} {e : Entry} {m : Machine}

theorem run_of_noDirectory (hfind : find? i.command = some e) (he : e.Equipped m)
    {cause : SystemError}
    (hmade : (m.withDirectory (Path.ofString schemaDirectory)).2 = .error cause) :
    let n := Steps.final i.run m
    i.run m = .ok 1 n ∧ n.spawns = m.spawns ∧
      n.files = (m.withDirectory (Path.ofString schemaDirectory)).1 := by
  intro n
  obtain ⟨stream, hrun⟩ := he.run_of_noDirectory hmade i.trailing
  rw [← Command.run_of_find? hfind] at hrun
  refine ⟨Steps.eq_final_of_ok (run_of_failure hrun), ?_, ?_⟩
  · rw [final_run Machine.spawns (fun _ _ ↦ rfl) fun _ _ ↦ rfl, Steps.final_of_ok hrun]
  · rw [final_run Machine.files (fun _ _ ↦ rfl) fun _ _ ↦ rfl, Steps.final_of_ok hrun]

theorem files_of_neverRuns (hfind : find? i.command = some e) (he : e.Equipped m)
    (hnever : (m.children.headD .quiet).NeverRuns) :
    let n := Steps.final i.run m
    n.files = (m.withDirectory (Path.ofString schemaDirectory)).1 ∧
      ∀ p : Path, n.route p = m.route p := by
  intro n
  obtain ⟨hfiles, hhere⟩ := he.final_run_of_neverRuns hnever i.trailing
  rw [← Command.run_of_find? hfind] at hfiles hhere
  refine ⟨(final_run Machine.files (fun _ _ ↦ rfl) (fun _ _ ↦ rfl) i m).trans hfiles, fun p ↦ ?_⟩
  rw [Machine.route, final_run Machine.workingDirectory (fun _ _ ↦ rfl) (fun _ _ ↦ rfl), hhere,
    Machine.route]

/-- The end of a run whose wait for the program is left. -/
theorem run_of_broken (hfind : find? i.command = some e) (he : e.Equipped m)
    (hmade : (m.withDirectory (Path.ofString schemaDirectory)).2 = .ok ())
    {raw : Int} {written : List UInt8} {interrupts : List Interrupt} {effects : List Effect}
    (hchild : m.children.headD .quiet = .exits raw written interrupts effects) {escape : Escape}
    (hbroken : Child.received true written interrupts = .error escape) :
    let n := Steps.final i.run m
    i.run m = .error escape n ∧ n.files = (m.beforeStore effects).files := by
  intro n
  obtain ⟨k, hrun, hfiles⟩ := he.run_of_broken hmade hchild hbroken i.trailing
  rw [← Command.run_of_find? hfind] at hrun
  have hend : i.run m = .error escape k := by
    rw [run_apply, hrun]
  have hn : n = k := Steps.final_of_error hend
  rw [hn]
  exact ⟨hend, hfiles⟩

/-- The end of a run whose program has run: what it has handed over is stored, or the run fails. -/
theorem run_of_received (hfind : find? i.command = some e) (he : e.Equipped m)
    (hmade : (m.withDirectory (Path.ofString schemaDirectory)).2 = .ok ())
    {raw : Int} {written output : List UInt8} {interrupts : List Interrupt} {effects : List Effect}
    (hchild : m.children.headD .quiet = .exits raw written interrupts effects)
    (hreceived : Child.received true written interrupts = .ok output) :
    let n := Steps.final i.run m
    let after := m.beforeStore effects
    let file := Path.ofString schemaFile
    Started m n raw output effects ∧ n.route file = after.route file ∧
      (after.CanWrite file output ∧ i.run m = .ok (reportedStatus raw) n ∧
          after.files.write (after.route file) output = .ok n.files ∨
        ¬after.CanWrite file output ∧ i.run m = .ok 1 n ∧ after.Spoils file output n.files ∧
          ∃ cause k,
            Command.run i.command i.trailing m = .ok (.error (.notWritten file cause)) k) := by
  intro n after file
  obtain ⟨result, k, hrun, ⟨s, hs, hcapture⟩, hplace, hstored⟩ :=
    he.run_of_received hmade hchild hreceived i.trailing
  rw [← Command.run_of_find? hfind] at hrun
  have hfinal : ∀ {γ : Type} (part : Machine → γ), IgnoresStderr part → IgnoresJournal part →
      part n = part k := by
    intro γ part herr hjournal
    exact (final_run part herr hjournal i m).trans (congrArg part (Steps.final_of_ok hrun))
  have hfiles : n.files = k.files := hfinal _ (fun _ _ ↦ rfl) fun _ _ ↦ rfl
  have hhere : n.workingDirectory = k.workingDirectory := hfinal _ (fun _ _ ↦ rfl) fun _ _ ↦ rfl
  have hspawns : n.spawns = k.spawns := hfinal _ (fun _ _ ↦ rfl) fun _ _ ↦ rfl
  refine ⟨⟨s, written, interrupts, hspawns.trans hs, hchild, hcapture ▸ hreceived⟩, ?_, ?_⟩
  · rw [Machine.route, hhere, hplace, Machine.route]
  rw [hfiles]
  rcases hstored with ⟨hcan, rfl, hwrite⟩ | ⟨hcannot, ⟨cause, rfl⟩, hspoiled⟩
  · exact .inl ⟨hcan, Steps.eq_final_of_ok (run_of_answer hrun), hwrite⟩
  · exact .inr ⟨hcannot, Steps.eq_final_of_ok (run_of_failure hrun), hspoiled, cause, k, hrun⟩

end Invocation

/-! ## The schema command -/

theorem find?_schema : ∃ e, find? "db:migration:schema" = some e ∧ e.action = .schema ∧
    e.program = some "diesel" ∧ e.requiresTool = some "diesel" ∧ e.envFile = none :=
  ⟨_, rfl, rfl, rfl, rfl, rfl⟩

theorem equipped_schema {m : Machine} (hdiesel : (m.findTool? "diesel").isSome = true) :
    ∃ e, find? "db:migration:schema" = some e ∧ e.Equipped m := by
  obtain ⟨e, hfind, he, hprogram, hrequires, henv⟩ := find?_schema
  refine ⟨e, hfind, he, ⟨_, hprogram⟩, ?_, ?_⟩
  · intro tool htool
    obtain rfl := Option.some.inj (hrequires.symm.trans htool)
    exact hdiesel
  · simp [henv]

/-! ## A machine with an earlier schema -/

/-- A machine on which the directory for the schema is there, with an earlier schema in it, and
`diesel` stands in a directory that is searched. -/
def Machine.withDiesel (earlier : List UInt8) (child : Child) (faults : List Fault) : Machine where
  files := ⟨.branch "diesel" (some (.file [] true)) .empty
    (.branch "src" (some .directory)
      (.branch "schema" (some .directory)
        (.branch "table.rs" (some (.file earlier false)) .empty .empty) .empty) .empty)⟩
  environment := [("PATH", "/")]
  children := [child]
  faults := faults

namespace Machine

variable {earlier : List UInt8} {child : Child} {faults : List Fault}

theorem isSome_findTool?_withDiesel :
    ((withDiesel earlier child faults).findTool? "diesel").isSome = true := by
  have hpath : (withDiesel earlier child faults).searchPath = ["/"] := rfl
  have hnode : (withDiesel earlier child faults).files.nodeAt
      (Route.ofString [] (searchCandidate "/" "diesel")) = .ok (.file [] true) :=
    FileSystem.nodeAt_of_reaches (.stay (.inl rfl) (.file (by decide) rfl)) rfl
  exact isSome_findTool? (by decide) (hpath ▸ List.mem_singleton.mpr rfl) (by decide) hnode

theorem withDirectory_withDiesel (h : Fault.error? faults .mkdir "src/schema" = none) :
    (withDiesel earlier child faults).withDirectory (Path.ofString schemaDirectory)
      = ((withDiesel earlier child faults).files, .ok ()) := by
  have hname : (Path.ofString schemaDirectory).toString = "src/schema" := by decide
  let r := (Path.ofString schemaDirectory).route []
  have habove : (withDiesel earlier child faults).files.walk false FileSystem.linkBudget r.start
      r.names.dropLast = .ok ["src"] :=
    FileSystem.walk_eq_ok_iff.mpr (.down (by decide) rfl .arrived)
  have htaken : (withDiesel earlier child faults).files.addDirectory r = .error .exists := by
    rw [FileSystem.addDirectory, FileSystem.place, if_neg (by decide), habove]
    rfl
  have htry : (withDiesel earlier child faults).files.tryDirectory faults []
      (Path.ofString schemaDirectory) = .error (ErrorCode.exists.about "src/schema") := by
    rw [FileSystem.tryDirectory, hname, h]
    dsimp only
    rw [htaken]
  have hforgive : (withDiesel earlier child faults).files.forgive []
      (Path.ofString schemaDirectory) (ErrorCode.exists.about "src/schema") = .ok () := by
    rw [FileSystem.forgive, FileSystem.isDirectory, FileSystem.nodeAt_of_reaches
      (.down (by decide) rfl (.down (by decide) rfl .arrived)) rfl]
    rfl
  show FileSystem.addDirectories _ faults [] _ = _
  rw [FileSystem.addDirectories, htry]
  exact congrArg _ hforgive

theorem made_withDiesel (h : Fault.error? faults .mkdir "src/schema" = none) :
    ((withDiesel earlier child faults).withDirectory (Path.ofString schemaDirectory)).2
      = .ok () := by
  rw [withDirectory_withDiesel h]

theorem beforeStore_withDiesel (h : Fault.error? faults .mkdir "src/schema" = none) :
    (withDiesel earlier child faults).beforeStore [] = withDiesel earlier child faults := by
  rw [beforeStore, withDirectory_withDiesel h]
  rfl

theorem isLong_route_withDiesel :
    ((withDiesel earlier child faults).route (Path.ofString schemaFile)).isLong = false := by
  show ((Path.ofString schemaFile).route []).isLong = false
  decide

theorem reaches_withDiesel (create : Bool) :
    (withDiesel earlier child faults).files.Reaches create FileSystem.linkBudget []
      ["src", "schema", "table.rs"] ["table.rs", "schema", "src"] := by
  cases create <;> exact .down (by decide) rfl (.down (by decide) rfl (.file (by decide) rfl))

theorem read_withDiesel :
    (withDiesel earlier child faults).files.read
        ((withDiesel earlier child faults).route (Path.ofString schemaFile)) = .ok earlier := by
  rw [FileSystem.read, FileSystem.nodeAt_of_reaches (reaches_withDiesel false) rfl
    isLong_route_withDiesel]

theorem write_withDiesel (content : List UInt8) :
    (withDiesel earlier child faults).files.write
        ((withDiesel earlier child faults).route (Path.ofString schemaFile)) content
      = .ok (withDiesel content .quiet []).files := by
  have hplace : (withDiesel earlier child faults).files.locateNew
      ((withDiesel earlier child faults).route (Path.ofString schemaFile))
        = .ok ["table.rs", "schema", "src"] := by
    rw [FileSystem.locateNew, isLong_route_withDiesel, if_neg Bool.false_ne_true]
    exact FileSystem.walk_eq_ok_iff.mpr (reaches_withDiesel true)
  rw [FileSystem.write, hplace]
  rfl

end Machine

/-! ## The whole story -/

/-- A write that fails has changed nothing, or it leaves a first part of what was to be written. -/
theorem Machine.Spoils.stores {m : Machine} {p : Path} {content : List UInt8} {files : FileSystem}
    (h : m.Spoils p content files) :
    files = m.files ∨ ∃ count, m.files.Stores files (m.route p) (content.take count) := by
  cases h with
  | unopened => exact .inl rfl
  | short _ _ hwrite => exact .inr ⟨_, FileSystem.stores_of_write hwrite⟩

/-- What is left by a write that is cut short can be told beforehand. -/
theorem Machine.Spoils.eq_of_shortfall {m : Machine} {p : Path} {content : List UInt8}
    {files cut : FileSystem} (h : m.Spoils p content files)
    (hpermitted : Fault.error? m.faults .write p.toString = none) {written : Nat} {e : SystemError}
    (hshort : Fault.shortfall? m.faults p.toString = some (written, e))
    (hwrite : m.files.write (m.route p) (content.take written) = .ok cut) : files = cut := by
  cases h with
  | unopened h =>
    rw [hpermitted] at h
    rcases h with ⟨⟨⟩⟩ | ⟨code, hcode⟩
    rw [FileSystem.write_eq_error hcode] at hwrite
    contradiction
  | short _ hshort' hwrite' =>
    obtain ⟨rfl, -⟩ := Prod.mk.inj (Option.some.inj (hshort'.symm.trans hshort))
    exact Except.ok.inj (hwrite'.symm.trans hwrite)

/-- **Storing the schema.** If `diesel` is found, the files behind a run of the schema command are
those of the last stage that it has got to. Without the directory nothing is started, and no file is
new or has changed. With a program that does not run, a schema that was there can still be read.
With one that runs, the files are as it has left them, up to the schema file: that holds what the
last wait for the program hands over, whatever its exit status, if it can be written. If it cannot
be opened, or the last wait hands nothing over, it is as the program has left it too; and if it
cannot be filled, it holds a first part. -/
theorem schema_stored (words : List String) {m : Machine}
    (hdiesel : (m.findTool? "diesel").isSome = true) :
    let i := Invocation.ofWords ("db:migration:schema" :: words)
    let n := Steps.final i.run m
    let made := m.withDirectory (Path.ofString schemaDirectory)
    let file := Path.ofString schemaFile
    (∀ cause, made.2 = .error cause → i.run m = .ok 1 n ∧ n.spawns = m.spawns ∧
      ∀ here bytes executable, n.files.node? here = some (.file bytes executable) ↔
        m.files.node? here = some (.file bytes executable)) ∧
    ((m.children.headD .quiet).NeverRuns → n.files = made.1 ∧
      ∀ bytes, m.files.read (m.route file) = .ok bytes → n.files.read (n.route file) = .ok bytes) ∧
    (made.2 = .ok () → ∀ raw written interrupts effects,
      m.children.headD .quiet = .exits raw written interrupts effects →
        let after := m.beforeStore effects
        (∀ escape, Child.received true written interrupts = .error escape →
          i.run m = .error escape n ∧ n.files = after.files) ∧
        ∀ output, Child.received true written interrupts = .ok output →
          Started m n raw output effects ∧
          (after.CanWrite file output → i.run m = .ok (reportedStatus raw) n ∧
            after.files.write (after.route file) output = .ok n.files ∧
            after.files.Stores n.files (n.route file) output) ∧
          (¬after.CanWrite file output → i.run m = .ok 1 n ∧
            (∃ f k, Command.run i.command i.trailing m = .ok (.error f) k ∧
              f.report.kind = "FileWriteError") ∧
            after.Spoils file output n.files ∧
            (n.files = after.files ∨
              ∃ count, after.files.Stores n.files (n.route file) (output.take count)))) := by
  intro i n made file
  obtain ⟨e, hfind, he⟩ := equipped_schema hdiesel
  refine ⟨?_, ?_, ?_⟩
  · intro cause hmade
    obtain ⟨hend, hspawns, hfiles⟩ := Invocation.run_of_noDirectory (i := i) hfind he hmade
    refine ⟨hend, hspawns, fun here bytes executable ↦ ?_⟩
    rw [hfiles]
    exact (m.files.grownAlong_addDirectories m.faults m.workingDirectory _).1.node?_eq_file_iff
  · intro hnever
    obtain ⟨hfiles, hroute⟩ := Invocation.files_of_neverRuns (i := i) hfind he hnever
    refine ⟨hfiles, fun bytes hread ↦ ?_⟩
    rw [hroute, hfiles]
    exact (m.files.extends_addDirectories m.faults m.workingDirectory _).read_of_ok hread
  · intro hmade raw written interrupts effects hchild after
    refine ⟨fun escape hbroken ↦ Invocation.run_of_broken hfind he hmade hchild hbroken, ?_⟩
    intro output hreceived
    obtain ⟨hstarted, hroute, hstored⟩ :=
      Invocation.run_of_received (i := i) hfind he hmade hchild hreceived
    refine ⟨hstarted, ?_⟩
    rw [hroute]
    rcases hstored with ⟨hcan, hend, hwrite⟩ | ⟨hcannot, hend, hspoiled, cause, k, hrun⟩
    · exact ⟨fun _ ↦ ⟨hend, hwrite, FileSystem.stores_of_write hwrite⟩,
        fun hcannot ↦ absurd hcan hcannot⟩
    · exact ⟨fun hcan ↦ absurd hcan hcannot,
        fun _ ↦ ⟨hend, ⟨_, k, hrun, rfl⟩, hspoiled, hspoiled.stores⟩⟩

/-- A program that is interrupted twice, puts out two bytes and ends with 3 makes the schema command
exit with 3, and the schema holds the two bytes. -/
theorem schema_stored_twice_interrupted :
    let m := Machine.withDiesel [111, 108, 100] (.exits 3 [104, 105] [.reading 0, .reading 0] []) []
    let i := Invocation.ofWords ["db:migration:schema"]
    let n := Steps.final i.run m
    (m.findTool? "diesel").isSome = true ∧ i.run m = .ok 3 n ∧
      n.files.read (n.route (Path.ofString schemaFile)) = .ok [104, 105] := by
  intro m i n
  have hdiesel : (m.findTool? "diesel").isSome = true := Machine.isSome_findTool?_withDiesel
  obtain ⟨-, -, hruns⟩ := schema_stored [] hdiesel
  obtain ⟨-, hreceived⟩ :=
    hruns (Machine.made_withDiesel rfl) 3 [104, 105] [.reading 0, .reading 0] [] rfl
  obtain ⟨-, hstored, -⟩ := hreceived [104, 105] rfl
  have hcan : (m.beforeStore []).CanWrite (Path.ofString schemaFile) [104, 105] := by
    rw [Machine.beforeStore_withDiesel rfl]
    exact ⟨rfl, rfl, _, Machine.write_withDiesel [104, 105]⟩
  obtain ⟨hend, -, hfile⟩ := hstored hcan
  exact ⟨hdiesel, hend, hfile.read⟩

/-- A disk that is full after one byte makes the schema command fail, and of the schema and the
earlier one this byte is left. -/
theorem schema_cut_short :
    let m := Machine.withDiesel [111, 108, 100] (.exits 0 [104, 105] [] [])
      [⟨.fill 1, "src/schema/table.rs", 28, "No space left on device"⟩]
    let i := Invocation.ofWords ["db:migration:schema"]
    let n := Steps.final i.run m
    let file := Path.ofString schemaFile
    i.run m = .ok 1 n ∧ (m.beforeStore []).files.read (m.route file) = .ok [111, 108, 100] ∧
      n.files.read (n.route file) = .ok [104] ∧ n.files ≠ (m.beforeStore []).files := by
  intro m i n file
  have hdiesel : (m.findTool? "diesel").isSome = true := Machine.isSome_findTool?_withDiesel
  obtain ⟨e, hfind, he⟩ := equipped_schema hdiesel
  have hafter : m.beforeStore [] = m := Machine.beforeStore_withDiesel rfl
  have hrun := Invocation.run_of_received (i := i) hfind he (Machine.made_withDiesel rfl) rfl
    (show Child.received true [104, 105] [] = .ok [104, 105] from rfl)
  rw [hafter] at hrun
  have hname : file.toString = "src/schema/table.rs" := by decide
  have hpermitted : Fault.error? m.faults .write file.toString = none := by
    rw [hname]
    decide
  have hshort : Fault.shortfall? m.faults file.toString
      = some (1, .numbered 28 "No space left on device" none) := by
    rw [hname]
    decide
  obtain ⟨-, hroute, ⟨⟨-, hwhole, -⟩, -⟩ | ⟨-, hend, hspoiled, -⟩⟩ := hrun
  · exact absurd (hshort.symm.trans hwhole) (Option.some_ne_none _)
  · have hwrite : m.files.write (m.route file) [104]
        = .ok (Machine.withDiesel [104] .quiet []).files := Machine.write_withDiesel [104]
    have hfiles := hspoiled.eq_of_shortfall hpermitted hshort hwrite
    have hcut : n.files.read (n.route file) = .ok [104] := by
      rw [hroute, hfiles]
      exact (FileSystem.stores_of_write hwrite).read
    have hearlier : m.files.read (m.route file) = .ok [111, 108, 100] := Machine.read_withDiesel
    rw [hafter]
    refine ⟨hend, hearlier, hcut, fun hsame ↦ ?_⟩
    rw [hsame, hroute, hearlier] at hcut
    exact absurd (Except.ok.inj hcut) (by decide)

end Runbook
