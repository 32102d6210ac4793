import Runbook.Proofs.Gating

/-!
# Exit statuses

The exit status of a run tells what became of the program that it started, and 1 stands for
everything else that can go wrong. `Exits` says so in terms of what can be seen from outside: the
trace and the streams at the end of the run, what the child was going to do, and whether the schema
could be written. The machines on the way are gone from it.

## When a schema can be written

The program has run by then, and it may have changed the files, among them the directory that was
made for the schema. So the question is asked of the machine behind those changes, which is
`Machine.beforeStore`. That machine is not the one in the run, which has told things on standard
error and counted the attempt, but the two have their files in common (`canWrite_congr`).
-/

namespace Runbook

open Command

/-! ## What can be seen from outside -/

/-- The run from `m` to `n` has started a program, which changed the files by `effects` and ended
with `raw`, and was handed over `output`: what has come through the wait for the program if that is
captured, and nothing else. -/
def Started (m n : Machine) (raw : Int) (output : List UInt8) (effects : List Effect) : Prop :=
  ∃ (s : Spawn) (written : List UInt8) (interrupts : List Interrupt),
    n.spawns = m.spawns ++ [s] ∧
      m.children.headD .quiet = .exits raw written interrupts effects ∧
      Child.received s.capture written interrupts = .ok output

/-- The run from `m` to `n` was for the help, which was written and flushed. -/
structure Invocation.Helped (i : Invocation) (m n : Machine) : Prop where
  /-- The command is the help. -/
  selected : ∃ e, find? i.command = some e ∧ e.action = .help
  /-- Writing succeeded. -/
  arrived : m.stdout.write (help programName) = (.ok (), n.stdout)

/-- The machine with the directory for a schema, after a program has changed its files. -/
def Machine.beforeStore (m : Machine) (effects : List Effect) : Machine :=
  ({ m with files := (m.withDirectory (Path.ofString schemaDirectory)).1 }).applyAll effects

/-- The schema file can be written after a program has changed the files. -/
def Machine.CanStore (m : Machine) (output : List UInt8) (effects : List Effect) : Prop :=
  (m.beforeStore effects).CanWrite (Path.ofString schemaFile) output

theorem not_started_of_spawns_eq {m n : Machine} (h : n.spawns = m.spawns) {raw : Int}
    {output : List UInt8} {effects : List Effect} : ¬Started m n raw output effects := by
  rintro ⟨s, -, -, hs, -⟩
  rw [h] at hs
  exact absurd (List.self_eq_append_right.mp hs) (List.cons_ne_nil s [])

theorem not_started_of_neverRuns {m n : Machine} (h : (m.children.headD .quiet).NeverRuns)
    {raw : Int} {output : List UInt8} {effects : List Effect} :
    ¬Started m n raw output effects := by
  rintro ⟨-, written, interrupts, -, hchild, -⟩
  exact h raw written interrupts effects hchild

theorem Started.eq {m n : Machine} {raw raw' : Int} {output output' : List UInt8}
    {effects effects' : List Effect} (h : Started m n raw output effects)
    (h' : Started m n raw' output' effects') :
    raw' = raw ∧ output' = output ∧ effects' = effects := by
  obtain ⟨s, written, interrupts, hs, hchild, hreceived⟩ := h
  obtain ⟨s', written', interrupts', hs', hchild', hreceived'⟩ := h'
  obtain rfl : s = s' := List.singleton_inj.mp (List.append_cancel_left (hs.symm.trans hs'))
  obtain ⟨rfl, rfl, rfl, rfl⟩ := Child.exits.inj (hchild.symm.trans hchild')
  exact ⟨rfl, Except.ok.inj (hreceived'.symm.trans hreceived), rfl⟩

/-! ## After the program -/

theorem canWrite_congr {m k : Machine} (hfaults : m.faults = k.faults) (hfiles : m.files = k.files)
    (hhere : m.workingDirectory = k.workingDirectory) (p : Path) (content : List UInt8) :
    (m.CanWrite p content ↔ k.CanWrite p content) ∧
      m.files.write (m.route p) content = k.files.write (k.route p) content := by
  have hroute : m.route p = k.route p := by
    rw [Machine.route, hhere, Machine.route]
  rw [Machine.CanWrite, Machine.CanWrite, hfaults, hfiles, hroute]
  exact ⟨Iff.rfl, rfl⟩

theorem Machine.Spoils.congr {m k : Machine} (hfaults : m.faults = k.faults)
    (hfiles : m.files = k.files) (hhere : m.workingDirectory = k.workingDirectory) {p : Path}
    {content : List UInt8} {files : FileSystem} (h : m.Spoils p content files) :
    k.Spoils p content files := by
  have hroute : m.route p = k.route p := by
    rw [Machine.route, hhere, Machine.route]
  cases h with
  | unopened h =>
    rw [hfaults, hfiles, hroute] at h
    rw [hfiles]
    exact .unopened h
  | short hpermitted hshort hwrite =>
    rw [hfaults] at hpermitted hshort
    rw [hfiles, hroute] at hwrite
    exact .short hpermitted hshort hwrite

theorem Command.Entry.Approached.afterSpawn_of_schema {e : Entry} {trailing : List String}
    {m k : Machine} {r : Request} (h : e.Approached trailing m r k) (he : e.action = .schema)
    {raw : Int} {output : List UInt8} {interrupts : List Interrupt} {effects : List Effect}
    (hchild : m.children.headD .quiet = .exits raw output interrupts effects) :
    (k.afterSpawn r).faults = (m.beforeStore effects).faults ∧
      (k.afterSpawn r).files = (m.beforeStore effects).files ∧
      (k.afterSpawn r).workingDirectory = (m.beforeStore effects).workingDirectory := by
  obtain ⟨hfiles, hhere⟩ := h.afterSpawn_eq
  rw [h.files, if_pos he, hchild] at hfiles hhere
  refine ⟨?_, hfiles, hhere⟩
  have hfaults : k.faults = m.faults := h.part_eq _ (fun _ _ ↦ rfl) fun _ _ ↦ rfl
  rw [Machine.beforeStore, Machine.faults_applyAll, Machine.afterSpawn]
  exact (k.faults_applyAll _).trans hfaults

theorem settle_of_schema {e : Entry} (he : e.action = .schema) {finished : Finished}
    {l n : Machine} {result : Except Failure Int} (h : e.settle finished l = .ok result n) :
    (l.CanWrite (Path.ofString schemaFile) finished.output ∧ result = .ok finished.status ∧
        l.files.write (l.route (Path.ofString schemaFile)) finished.output = .ok n.files) ∨
      (¬l.CanWrite (Path.ofString schemaFile) finished.output ∧
        (∃ cause, result = .error (.notWritten (Path.ofString schemaFile) cause)) ∧
        l.Spoils (Path.ofString schemaFile) finished.output n.files) := by
  rw [Entry.settle, he] at h
  rcases Run.bind_eq_ok_iff.mp h with ⟨failure, rfl, hwrite⟩ | ⟨p, k, hwrite, hpure⟩
  · rcases writeFile_of_ok hwrite with ⟨-, ⟨⟨⟩, -⟩ | ⟨⟨cause, ⟨rfl⟩⟩, hcannot, hspoiled⟩⟩
    exact .inr ⟨hcannot, ⟨cause, rfl⟩, hspoiled⟩
  · obtain ⟨rfl, rfl⟩ := EStateM.Result.ok.inj hpure
    rcases writeFile_of_ok hwrite with ⟨-, ⟨-, hcan, hfiles⟩ | ⟨⟨cause, ⟨⟩⟩, -⟩⟩
    exact .inl ⟨hcan, rfl, hfiles⟩

theorem Command.Entry.settle_of_failure {e : Entry} {finished : Finished} {l n : Machine}
    {failure : Failure} (h : e.settle finished l = .ok (.error failure) n) :
    ¬l.CanWrite (Path.ofString schemaFile) finished.output ∧
      ∃ cause, failure = .notWritten (Path.ofString schemaFile) cause := by
  by_cases he : e.action = .schema
  · rcases settle_of_schema he h with ⟨-, ⟨⟩, -⟩ | ⟨hcannot, ⟨cause, ⟨rfl⟩⟩, -⟩
    exact ⟨hcannot, cause, rfl⟩
  · rw [settle_of_not_schema he] at h
    obtain ⟨⟨⟩, -⟩ := EStateM.Result.ok.inj h

/-! ## The exit status of a run -/

/-- How the exit status of a run from `m` to `n` comes about. -/
inductive Invocation.Exits (i : Invocation) (m n : Machine) : Int → Prop where
  /-- The help arrives. -/
  | helped (hhelped : i.Helped m n) (hnone : n.spawns = m.spawns) : Exits i m n 0
  /-- No program is started, and there is no help either. -/
  | idle (hhelpless : ¬i.Helped m n)
      (hidle : ∀ {raw output effects}, ¬Started m n raw output effects) : Exits i m n 1
  /-- The status of a program is handed on. -/
  | exec {e : Entry} {raw : Int} {output : List UInt8} {effects : List Effect}
      (hfind : find? i.command = some e) (he : e.action = .exec)
      (hstarted : Started m n raw output effects) : Exits i m n (reportedStatus raw)
  /-- The output of a program is stored, and its status is handed on. -/
  | stored {e : Entry} {raw : Int} {output : List UInt8} {effects : List Effect}
      (hfind : find? i.command = some e) (he : e.action = .schema)
      (hstarted : Started m n raw output effects) (hcan : m.CanStore output effects)
      (hfiles : (m.beforeStore effects).files.write
        ((m.beforeStore effects).route (Path.ofString schemaFile)) output = .ok n.files) :
      Exits i m n (reportedStatus raw)
  /-- The output of a program cannot be stored. -/
  | unstored {e : Entry} {raw : Int} {output : List UInt8} {effects : List Effect}
      (hfind : find? i.command = some e) (he : e.action = .schema)
      (hstarted : Started m n raw output effects) (hcannot : ¬m.CanStore output effects) :
      Exits i m n 1

theorem Invocation.not_helped_of_find? {i : Invocation} {e : Entry}
    (hfind : find? i.command = some e) (he : e.action ≠ .help) {m n : Machine} :
    ¬i.Helped m n := by
  rintro ⟨⟨e', hfind', he'⟩, -⟩
  obtain rfl : e = e' := Option.some.inj (hfind.symm.trans hfind')
  exact he he'

/-- A program that has ended was started, and what it has handed over is what there is to see of
it. -/
theorem started_of_start {e : Entry} {trailing : List String} {m k l n : Machine} {r : Request}
    {finished : Finished} (hready : e.Approached trailing m r k)
    (hstart : r.start k = .ok (.ok finished) l)
    (hn : n.spawns = m.spawns ++ [k.spawnOf r (k.children.headD .quiet)]) :
    ∃ raw output effects, Started m n raw output effects ∧
      finished = ⟨reportedStatus raw, output⟩ ∧ l = k.afterSpawn r ∧
      ∃ written interrupts, m.children.headD .quiet = .exits raw written interrupts effects := by
  obtain ⟨raw, written, interrupts, effects, output, hchild, hreceived, hfinished, hl⟩ :=
    start_eq_answer_iff.mp hstart
  rw [hready.children_eq] at hchild
  exact ⟨raw, output, effects, ⟨_, written, interrupts, hn, hchild, hreceived⟩, hfinished, hl,
    written, interrupts, hchild⟩

/-- What a command makes of its program decides about the exit status, and nothing but the files
of the machine behind it counts for what can be seen of that. -/
theorem Invocation.exits_of_settle {i : Invocation} {e : Entry} {m k l q n : Machine} {r : Request}
    {finished : Finished} {result : Except Failure Int}
    (hfind : find? i.command = some e) (he : e.action ≠ .help)
    (hready : e.Approached i.trailing m r k) (hstart : r.start k = .ok (.ok finished) l)
    (hsettle : e.settle finished l = .ok result q)
    (hn : n.spawns = m.spawns ++ [k.spawnOf r (k.children.headD .quiet)]) :
    (∀ status, result = .ok status → n.files = q.files → i.Exits m n status) ∧
      ∀ failure, result = .error failure → i.Exits m n 1 := by
  obtain ⟨raw, output, effects, hstarted, rfl, rfl, written, interrupts, hchild⟩ :=
    started_of_start hready hstart hn
  by_cases hschema : e.action = .schema
  · -- Whether the file can be written is asked of `m.beforeStore effects` from here on.
    obtain ⟨hfaults, hfiles, hhere⟩ := hready.afterSpawn_of_schema hschema hchild
    obtain ⟨hsame, hwrite⟩ :=
      canWrite_congr hfaults hfiles hhere (Path.ofString schemaFile) output
    rcases settle_of_schema hschema hsettle with ⟨hcan, rfl, hfiles⟩ | ⟨hcannot, ⟨cause, rfl⟩, -⟩
    · constructor
      · rintro _ ⟨rfl⟩ hbehind
        refine .stored hfind hschema hstarted (hsame.mp hcan) ?_
        rw [← hwrite, hbehind]
        exact hfiles
      · rintro _ ⟨⟩
    · constructor
      · rintro _ ⟨⟩
      · rintro _ -
        exact .unstored hfind hschema hstarted fun hcan ↦ hcannot (hsame.mpr hcan)
  · rw [Entry.settle_of_not_schema hschema] at hsettle
    obtain ⟨rfl, rfl⟩ := EStateM.Result.ok.inj hsettle
    constructor
    · rintro _ ⟨rfl⟩ -
      have hexec : e.action = .exec := by
        rcases haction : e.action
        · rfl
        · exact absurd haction he
        · exact absurd haction hschema
      exact .exec hfind hexec hstarted
    · rintro _ ⟨⟩

/-- **How exit statuses come about.** There are five ways to an exit status, and a run that gets to
its end has taken one of them. -/
theorem Invocation.exits_of_run {i : Invocation} {m n : Machine} {status : Int}
    (h : i.run m = .ok status n) : i.Exits m n status := by
  have hn : n.spawns = m.spawns ++ (i.attempt? m).toList := by
    rw [← Steps.final_of_ok h]
    exact (i.trace_final_run m).1
  -- An answer of the command leaves two endings, and a failure the other four and again the last.
  rcases Invocation.run_eq_ok_iff.mp h with hends | ⟨f, k, hends, rfl, -⟩
  · cases hends with
    | helped hfind he hwrite => exact .helped ⟨⟨_, hfind, he⟩, hwrite⟩ rfl
    | ended hfind he happroach hstart hsettle =>
      rw [Invocation.attempt?_of_find? hfind he, Entry.attempt?_of_approach happroach] at hn
      have hready := Entry.approached_of_approach happroach
      exact (exits_of_settle hfind he hready hstart hsettle hn).1 status rfl rfl
  · cases hends with
    | unknown hfind =>
      rw [Invocation.attempt?, hfind, Option.toList_none, List.append_nil] at hn
      refine .idle ?_ (not_started_of_spawns_eq hn)
      rintro ⟨⟨e, hfind', -⟩, -⟩
      exact absurd (hfind'.symm.trans hfind) (Option.some_ne_none e)
    | unhelped hfind he hwrite =>
      rw [Invocation.attempt?_of_help hfind he, Option.toList_none, List.append_nil] at hn
      refine .idle ?_ (not_started_of_spawns_eq hn)
      rintro ⟨-, harrived⟩
      rw [hwrite] at harrived
      obtain ⟨hresult, -⟩ := Prod.mk.inj harrived
      contradiction
    | blocked hfind he happroach =>
      rw [Invocation.attempt?_of_find? hfind he, Entry.attempt?_of_failure happroach,
        Option.toList_none, List.append_nil] at hn
      exact .idle (Invocation.not_helped_of_find? hfind he) (not_started_of_spawns_eq hn)
    | refused hfind he happroach hstart =>
      obtain ⟨-, hnever, -⟩ := start_of_failure hstart
      have hready := Entry.approached_of_approach happroach
      rw [hready.children_eq] at hnever
      exact .idle (Invocation.not_helped_of_find? hfind he) (not_started_of_neverRuns hnever)
    | ended hfind he happroach hstart hsettle =>
      rw [Invocation.attempt?_of_find? hfind he, Entry.attempt?_of_approach happroach] at hn
      have hready := Entry.approached_of_approach happroach
      exact (exits_of_settle hfind he hready hstart hsettle hn).2 f rfl

/-! ## Reading an exit status -/

theorem reportedStatus_eq (raw : Int) :
    reportedStatus raw = if 0 ≤ raw then raw else 128 - raw := by
  rw [reportedStatus]
  split <;> split <;> omega

/-- A program that a signal ended is never taken for one that ended well. -/
theorem reportedStatus_eq_zero_iff {raw : Int} : reportedStatus raw = 0 ↔ raw = 0 := by
  rw [reportedStatus]
  split <;> omega

namespace Invocation.Exits

variable {i : Invocation} {m n : Machine} {status raw : Int} {e : Entry} {output : List UInt8}
  {effects : List Effect}

theorem status_of_exec (h : i.Exits m n status) (hfind : find? i.command = some e)
    (he : e.action = .exec) (hstarted : Started m n raw output effects) :
    status = reportedStatus raw := by
  cases h with
  | helped _ hnone => exact absurd hstarted (not_started_of_spawns_eq hnone)
  | idle _ hidle => exact absurd hstarted hidle
  | exec _ _ hstarted' =>
    obtain ⟨rfl, -, -⟩ := hstarted.eq hstarted'
    rfl
  | stored hfind' he' | unstored hfind' he' =>
    obtain rfl := Option.some.inj (hfind.symm.trans hfind')
    exact absurd (he.symm.trans he') (by decide)

theorem status_of_schema (h : i.Exits m n status) (hfind : find? i.command = some e)
    (he : e.action = .schema) (hstarted : Started m n raw output effects) :
    (m.CanStore output effects → status = reportedStatus raw ∧
        (m.beforeStore effects).files.write
          ((m.beforeStore effects).route (Path.ofString schemaFile)) output = .ok n.files) ∧
      (¬m.CanStore output effects → status = 1) := by
  cases h with
  | helped _ hnone => exact absurd hstarted (not_started_of_spawns_eq hnone)
  | idle _ hidle => exact absurd hstarted hidle
  | exec hfind' he' =>
    obtain rfl := Option.some.inj (hfind.symm.trans hfind')
    exact absurd (he.symm.trans he') (by decide)
  | stored _ _ hstarted' hcan hfiles =>
    obtain ⟨rfl, rfl, rfl⟩ := hstarted.eq hstarted'
    exact ⟨fun _ ↦ ⟨rfl, hfiles⟩, fun hcannot ↦ absurd hcan hcannot⟩
  | unstored _ _ hstarted' hcannot =>
    obtain ⟨rfl, rfl, rfl⟩ := hstarted.eq hstarted'
    exact ⟨fun hcan ↦ absurd hcan hcannot, fun _ ↦ rfl⟩

theorem status_of_idle (h : i.Exits m n status)
    (hidle : ∀ raw output effects, ¬Started m n raw output effects) :
    (i.Helped m n → status = 0) ∧ (¬i.Helped m n → status = 1) := by
  cases h with
  | helped hhelped => exact ⟨fun _ ↦ rfl, fun hhelpless ↦ absurd hhelped hhelpless⟩
  | idle hhelpless => exact ⟨fun hhelped ↦ absurd hhelped hhelpless, fun _ ↦ rfl⟩
  | exec _ _ hstarted | stored _ _ hstarted | unstored _ _ hstarted =>
    exact absurd hstarted (hidle _ _ _)

theorem eq_zero_iff (h : i.Exits m n status) :
    status = 0 ↔ i.Helped m n ∨ ∃ e output effects, find? i.command = some e ∧
      Started m n 0 output effects ∧ (e.action = .schema → m.CanStore output effects) := by
  constructor
  · intro hzero
    cases h with
    | helped hhelped => exact .inl hhelped
    | idle | unstored => contradiction
    | exec hfind he hstarted =>
      obtain rfl := reportedStatus_eq_zero_iff.mp hzero
      refine .inr ⟨_, _, _, hfind, hstarted, ?_⟩
      intro hschema
      exact absurd (he.symm.trans hschema) (by decide)
    | stored hfind he hstarted hcan =>
      obtain rfl := reportedStatus_eq_zero_iff.mp hzero
      exact .inr ⟨_, _, _, hfind, hstarted, fun _ ↦ hcan⟩
  · rintro (hhelped | ⟨e, output, effects, hfind, hstarted, hstored⟩)
    · cases h with
      | helped => rfl
      | idle hhelpless => exact absurd hhelped hhelpless
      | exec hfind he | stored hfind he | unstored hfind he =>
        refine absurd hhelped (Invocation.not_helped_of_find? hfind ?_)
        rw [he]
        decide
    · cases h with
      | helped => rfl
      | idle _ hidle => exact absurd hstarted hidle
      | exec _ _ hstarted' | stored _ _ hstarted' =>
        obtain ⟨rfl, -, -⟩ := hstarted.eq hstarted'
        exact reportedStatus_eq_zero_iff.mpr rfl
      | unstored hfind' he hstarted' hcannot =>
        obtain rfl := Option.some.inj (hfind.symm.trans hfind')
        obtain ⟨-, rfl, rfl⟩ := hstarted.eq hstarted'
        exact absurd (hstored he) hcannot

end Invocation.Exits

/-- **The exit status.** A command that hands the status of its program on exits with it, or with
128 and the number of the signal that ended the program. A command that stores a schema does the
same if the schema is written, and exits with 1 if it is not. Without a program, the exit status is
0 for a help that has arrived and 1 for all else.

So the exit status is 0 only for such a help and for a program that has ended with 0 itself, and
whose output is stored if it is a schema. -/
theorem exit_status {words : List String} {m n : Machine} {status : Int}
    (h : (Invocation.ofWords words).run m = .ok status n) :
    let i := Invocation.ofWords words
    (∀ e raw output effects, find? i.command = some e → Started m n raw output effects →
      (e.action = .exec → status = if 0 ≤ raw then raw else 128 - raw) ∧
      (e.action = .schema →
        (m.CanStore output effects → (status = if 0 ≤ raw then raw else 128 - raw) ∧
          (m.beforeStore effects).files.write
            ((m.beforeStore effects).route (Path.ofString schemaFile)) output = .ok n.files) ∧
        (¬m.CanStore output effects → status = 1))) ∧
    ((∀ raw output effects, ¬Started m n raw output effects) →
      (i.Helped m n → status = 0) ∧ (¬i.Helped m n → status = 1)) ∧
    (status = 0 ↔ i.Helped m n ∨ ∃ e output effects, find? i.command = some e ∧
      Started m n 0 output effects ∧ (e.action = .schema → m.CanStore output effects)) := by
  intro i
  have hexits : i.Exits m n status := Invocation.exits_of_run h
  refine ⟨?_, hexits.status_of_idle, hexits.eq_zero_iff⟩
  intro e raw output effects hfind hstarted
  rw [← reportedStatus_eq]
  exact ⟨fun he ↦ hexits.status_of_exec hfind he hstarted,
    fun he ↦ hexits.status_of_schema hfind he hstarted⟩

/-- A program of `check` that the signal 9 ends makes it exit with 137. -/
theorem exit_status_check_killed :
    ∃ n, (Invocation.ofWords ["check"]).run { children := [.exits (-9) [] [] []] } = .ok 137 n ∧
      Started { children := [.exits (-9) [] [] []] } n (-9) [] [] ∧
      (137 : Int) = if 0 ≤ (-9 : Int) then -9 else 128 - -9 := by
  have hrun : ∃ n, (Invocation.ofWords ["check"]).run { children := [.exits (-9) [] [] []] }
      = .ok 137 n ∧ ∃ s, n.spawns = [s] ∧ s.capture = false := ⟨_, rfl, _, rfl, rfl⟩
  obtain ⟨n, hrun, s, hattempted, hcapture⟩ := hrun
  have hstarted : Started { children := [.exits (-9) [] [] []] } n (-9) [] [] :=
    ⟨s, [], [], hattempted, rfl, by rw [hcapture]; rfl⟩
  obtain ⟨e, hfind, he⟩ : ∃ e, find? "check" = some e ∧ e.action = .exec := ⟨_, rfl, rfl⟩
  obtain ⟨hprogram, -, -⟩ := exit_status hrun
  exact ⟨n, hrun, hstarted, (hprogram e (-9) [] [] hfind hstarted).1 he⟩

end Runbook
