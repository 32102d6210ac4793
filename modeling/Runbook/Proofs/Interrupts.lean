import Runbook.Proofs.SchemaStorage
import Runbook.Proofs.SideBySide

/-!
# Interrupts

An interrupt breaks the wait for a program, and the run waits again. For a program whose output is
not captured that is all it does: the run comes to the same outcome on the same machine, and only
the count of the waits in the trace tells the difference (`RidesOut`).

For a program whose output is captured, interrupts cost output (`Child.received_eq_ok_iff`). The run
comes to what it would have come to if the program had put out no more than what the last wait hands
over, and that is all of it only if nothing had been read when an interrupt came. If one comes when
the pipe has been closed, the run is left by the next wait (`BreaksOff`).

Two runs are put side by side for that, one with interrupts and one without. Until the program is
started, their machines differ in the child that is next in the queue; after it, in the trace. So
all that has to be known of the other steps is that they look at neither the queue nor the trace
(`respected_upToQueue`), and the loop around the wait comes up in one step of the two runs only
(`respects_start_interrupted`).
-/

namespace Runbook

open Command

variable {α : Type}

/-! ## Machines that differ in their queues and traces -/

/-- The machines differ at most in the queue of children and in the trace, and these are in relation
with those of the other machine. -/
inductive Machine.UpToQueue (Q : List Child → List Spawn → List Child → List Spawn → Prop)
    (m : Machine) : Machine → Prop
  /-- All but the queue and the trace is the same. -/
  | intro (children : List Child) (spawns : List Spawn)
      (h : Q m.children m.spawns children spawns) :
    UpToQueue Q m { m with children := children, spawns := spawns }

section UpToQueue

variable {Q : List Child → List Spawn → List Child → List Spawn → Prop}

theorem offstage_upToQueue : Offstage (Machine.UpToQueue Q) where
  scene := by
    rintro m _ ⟨children, spawns, -⟩
    exact .intro children m.stdout m.stderr spawns m.journal
  files := by
    rintro m _ ⟨children, spawns, h⟩ files
    exact .intro children spawns h

theorem respects_tell_upToQueue (text : String) : Respects (Machine.UpToQueue Q) (tell text) := by
  rintro m _ ⟨children, spawns, h⟩
  exact .ok () (.intro children spawns h)

theorem respects_mustTell_upToQueue (text : String) :
    Respects (Machine.UpToQueue Q) (mustTell text) := by
  rintro m _ ⟨children, spawns, h⟩
  rw [mustTell, mustTell]
  dsimp only
  rcases m.stderr.write text with ⟨_ | _, stream⟩
  · exact .error _ (.intro children spawns h)
  · exact .ok _ (.intro children spawns h)

theorem respectedByExec_upToQueue
    (hstart : ∀ r, r.capture = false → Respects (Machine.UpToQueue Q) (Request.start r)) :
    RespectedByExec (Machine.UpToQueue Q) where
  tell := respects_tell_upToQueue
  note message := by
    rintro m _ ⟨children, spawns, h⟩
    exact .ok () (.intro children spawns h)
  checkTool := offstage_upToQueue.checkTool
  startPlain := hstart

theorem respects_printOut_upToQueue (text : String) :
    Respects (Machine.UpToQueue Q) (printOut text) := by
  rintro m _ ⟨children, spawns, h⟩
  exact .ok _ (.intro children spawns h)

/-- **The queue and the trace.** No step but the start of a program looks at them. -/
theorem respected_upToQueue (hstart : ∀ r, Respects (Machine.UpToQueue Q) (Request.start r)) :
    Respected (Machine.UpToQueue Q) where
  toRespectedByExec := respectedByExec_upToQueue fun r _ ↦ hstart r
  createDirectory := offstage_upToQueue.createDirectory
  start := hstart
  writeFile := offstage_upToQueue.writeFile
  printOut := respects_printOut_upToQueue

end UpToQueue

theorem Machine.applyAll_withQueue (m : Machine) (children : List Child) (spawns : List Spawn)
    (effects : List Effect) :
    Machine.applyAll { m with children := children, spawns := spawns } effects
      = { m.applyAll effects with children := children, spawns := spawns } := by
  rw [Machine.applyAll, Machine.applyAll]
  induction effects generalizing m with
  | nil => rfl
  | cons e rest ih => exact ih (m.apply e)

/-- Two programs with the same effects leave machines that differ in their queues and traces as
well. -/
theorem Machine.UpToQueue.afterSpawn {Q : List Child → List Spawn → List Child → List Spawn → Prop}
    {m : Machine} {children : List Child} {spawns : List Spawn} {r : Request}
    (heffects : (children.headD .quiet).effects = (m.children.headD .quiet).effects)
    (h : Q m.children.tail (m.spawns ++ [m.spawnOf r (m.children.headD .quiet)]) children.tail
      (spawns ++ [m.spawnOf r (children.headD .quiet)])) :
    (m.afterSpawn r).UpToQueue Q
      (Machine.afterSpawn { m with children := children, spawns := spawns } r) := by
  have hafter : Machine.afterSpawn { m with children := children, spawns := spawns } r
      = { m.afterSpawn r with
          children := children.tail
          spawns := spawns ++ [m.spawnOf r (children.headD .quiet)] } := by
    rw [Machine.afterSpawn, Machine.applyAll_withQueue, heffects]
    rfl
  rw [hafter]
  exact .intro _ _ h

/-! ## The start of an interrupted program -/

/-- Queue and trace of two runs from the trace `earlier`. The first run takes `plain` for the next
child and waits for it once. The second takes `broken`, which is interrupted `k` times. -/
inductive Interrupted (plain broken : Child) (rest : List Child) (k : Nat) (earlier : List Spawn)
    (children : List Child) (spawns : List Spawn) : List Child → List Spawn → Prop
  /-- The child has not been started. -/
  | ahead (hchildren : children = plain :: rest) (hspawns : spawns = earlier) :
      Interrupted plain broken rest k earlier children spawns (broken :: rest) earlier
  /-- The child has been started. It was waited for once, or once more for each interrupt. -/
  | behind {s : Spawn} {later : List Spawn} (hwaits : s.waits = 1)
      (hspawns : spawns = earlier ++ s :: later) :
      Interrupted plain broken rest k earlier children spawns children
        (earlier ++ { s with waits := k + 1 } :: later)

section Interrupted

variable {raw : Int} {written output : List UInt8} {interrupts : List Interrupt}
  {effects : List Effect} {rest : List Child} (earlier : List Spawn)

theorem Machine.spawnOf_interrupted (m : Machine) {r : Request} {handed : List UInt8}
    (hreceived : Child.received r.capture written interrupts = .ok handed) :
    m.spawnOf r (.exits raw written interrupts effects)
      = { m.spawnOf r (.exits raw output [] effects) with waits := interrupts.length + 1 } := by
  rw [spawnOf, Child.waits, Child.await_snd_of_received hreceived]
  rfl

/-- **One start.** If the wait for the interrupted program hands over what the other program puts
out, the start does not show the interrupts, except in the count of the waits. -/
theorem respects_start_interrupted {r : Request}
    (hreceived : Child.received r.capture written interrupts
      = .ok (if r.capture then output else [])) :
    Respects (Machine.UpToQueue (Interrupted (.exits raw output [] effects)
      (.exits raw written interrupts effects) rest interrupts.length earlier)) r.start := by
  rintro m _ ⟨children, spawns, h⟩
  cases h with
  | ahead hchildren hspawns =>
    have hchild : m.children.headD .quiet = .exits raw output [] effects := by
      rw [hchildren, List.headD_cons]
    rw [start_of_exits hchild (Child.received_nil r.capture output), start_of_exits rfl hreceived]
    refine .ok _ (.afterSpawn (by rw [hchild]; rfl) ?_)
    have hwaits : (m.spawnOf r (.exits raw output [] effects)).waits = 1 :=
      Child.await_snd_of_received (Child.received_nil r.capture output)
    rw [hchild, hchildren, hspawns, List.headD_cons, List.tail_cons, List.tail_cons,
      m.spawnOf_interrupted hreceived]
    exact .behind hwaits rfl
  | @behind s later hwaits hspawns =>
    -- Both runs take the same child, and their traces grow by the same attempt.
    have hafter : (m.afterSpawn r).UpToQueue (Interrupted (.exits raw output [] effects)
          (.exits raw written interrupts effects) rest interrupts.length earlier)
        (Machine.afterSpawn { m with
          spawns := earlier ++ { s with waits := interrupts.length + 1 } :: later } r) := by
      refine .afterSpawn rfl ?_
      rw [hspawns, List.append_assoc, List.append_assoc, List.cons_append, List.cons_append]
      exact .behind hwaits rfl
    rw [Request.start, Request.start]
    dsimp only
    rcases (m.children.headD .quiet).answer r with escape | result
    · exact .error escape hafter
    · exact .ok result hafter

end Interrupted

/-! ## Computations that cannot see interrupts -/

/-- The computation does not tell a program that writes `written` and is interrupted from one that
writes `output` and is not. -/
def Blind (written : List UInt8) (interrupts : List Interrupt) (output : List UInt8)
    (x : Steps α) : Prop :=
  ∀ raw effects rest earlier, Respects (Machine.UpToQueue (Interrupted
    (.exits raw output [] effects) (.exits raw written interrupts effects) rest interrupts.length
    earlier)) x

/-- The word selects a command that captures the output of its program. -/
def Command.Captures (word : String) : Prop := ∃ e, find? word = some e ∧ e.action = .schema

section Blind

variable {written output : List UInt8} {interrupts : List Interrupt}

theorem blind_start {r : Request}
    (hreceived : Child.received r.capture written interrupts
      = .ok (if r.capture then output else [])) : Blind written interrupts output r.start :=
  fun _ _ _ earlier ↦ respects_start_interrupted earlier hreceived

theorem blind_start_of_not_capture {r : Request} (h : r.capture = false) :
    Blind written interrupts output r.start := by
  refine blind_start ?_
  rw [h, Child.received_of_not_capture, if_neg Bool.false_ne_true]

theorem respectedByExec_interrupted {raw : Int} {effects : List Effect} {rest : List Child}
    {earlier : List Spawn} : RespectedByExec (Machine.UpToQueue (Interrupted
      (.exits raw output [] effects) (.exits raw written interrupts effects) rest interrupts.length
      earlier)) :=
  respectedByExec_upToQueue fun _ h ↦ blind_start_of_not_capture h _ _ _ _

theorem blind_command_of_not_captures {word : String} (h : ¬Captures word)
    (trailing : List String) : Blind written interrupts output (Command.run word trailing) :=
  fun _ _ _ _ ↦ respectedByExec_interrupted.runCommand respects_printOut_upToQueue trailing
    (fun e _ ↦ offstage_upToQueue.overlay respects_tell_upToQueue e)
    fun e hfind he ↦ h ⟨e, hfind, he⟩

theorem blind_command (h : Child.received true written interrupts = .ok output) (word : String)
    (trailing : List String) : Blind written interrupts output (Command.run word trailing) := by
  intro raw effects rest earlier
  have hstart : ∀ r : Request, Blind written interrupts output r.start := by
    intro r
    rcases hcapture : r.capture with _ | _
    · exact blind_start_of_not_capture hcapture
    · exact blind_start (by rw [hcapture, h, if_pos rfl])
  exact (respected_upToQueue fun r ↦ hstart r raw effects rest earlier).runCommand trailing
    fun e _ ↦ offstage_upToQueue.overlay respects_tell_upToQueue e

theorem Blind.invocation {i : Invocation}
    (h : Blind written interrupts output (Command.run i.command i.trailing)) :
    Blind written interrupts output i.run :=
  fun raw effects rest earlier ↦ respectedByExec_interrupted.run (h raw effects rest earlier)

theorem Blind.commandLine {words : List String}
    (h : Blind written interrupts output (Invocation.ofWords (CommandLine.scan words)).run) :
    Blind written interrupts output (CommandLine.run words) :=
  fun raw effects rest earlier ↦
    Respects.commandLine respects_mustTell_upToQueue (h raw effects rest earlier)

end Blind

/-! ## Riding out interrupts -/

/-- The computation takes a program that writes `written` and is interrupted for one that writes
`output` and is not. If the program is started, the trace counts the waits: one without interrupts,
and one more for each of them. All else is the same then, and everything but the program itself is
if it is not started. -/
def RidesOut (written : List UInt8) (interrupts : List Interrupt) (output : List UInt8)
    (x : Steps α) : Prop :=
  ∀ (m : Machine) (raw : Int) (effects : List Effect) (rest : List Child),
    let plain := { m with children := .exits raw output [] effects :: rest }
    let broken := { m with children := .exits raw written interrupts effects :: rest }
    x.outcome broken = x.outcome plain ∧
      ((x.final plain).spawns = m.spawns ∧
          x.final broken = { x.final plain with children := broken.children } ∨
        ∃ s : Spawn, s.waits = 1 ∧ (x.final plain).spawns = m.spawns ++ [s] ∧
          x.final broken = { x.final plain with
            spawns := m.spawns ++ [{ s with waits := interrupts.length + 1 }] })

section RidesOut

variable {written output : List UInt8} {interrupts : List Interrupt}

/-- A computation that starts at most one program rides out its interrupts if it cannot see them. -/
theorem Blind.ridesOut {x : Steps α} (hx : Blind written interrupts output x)
    (hone : ∀ m, ∃ attempt : Option Spawn, (x.final m).spawns = m.spawns ++ attempt.toList) :
    RidesOut written interrupts output x := by
  intro m raw effects rest plain broken
  have hrespects := hx raw effects rest m.spawns
  have hR : plain.UpToQueue (Interrupted (.exits raw output [] effects)
      (.exits raw written interrupts effects) rest interrupts.length m.spawns) broken :=
    .intro broken.children m.spawns (.ahead rfl rfl)
  refine ⟨hrespects.outcome_eq hR, ?_⟩
  obtain ⟨attempt, hattempt⟩ := hone plain
  have hfinal := hrespects.final hR
  generalize x.final plain = n, x.final broken = n' at hfinal hattempt
  obtain ⟨children, spawns, h⟩ := hfinal
  cases h with
  | ahead hchildren hspawns =>
    refine .inl ⟨hspawns, ?_⟩
    rw [← hspawns]
  | @behind s later hwaits hspawns =>
    -- The one attempt is that of the interrupted program.
    have hlater : s :: later = attempt.toList :=
      List.append_cancel_left (hspawns.symm.trans hattempt)
    obtain rfl : later = [] := by
      rcases attempt with _ | _
      · cases hlater
      · exact (List.cons.inj hlater).2
    exact .inr ⟨s, hwaits, hspawns, rfl⟩

theorem ridesOut_start {r : Request} (h : Blind written interrupts output r.start) :
    RidesOut written interrupts output r.start := by
  refine h.ridesOut fun m ↦ ?_
  rw [final_start]
  exact ⟨some (m.spawnOf r (m.children.headD .quiet)), rfl⟩

theorem ridesOut_command {word : String} {trailing : List String}
    (h : Blind written interrupts output (Command.run word trailing)) :
    RidesOut written interrupts output (Command.run word trailing) := by
  refine h.ridesOut fun m ↦ ?_
  have htrace := (Invocation.trace_final_run ⟨word, trailing⟩ m).1
  rw [Invocation.final_run Machine.spawns (fun _ _ ↦ rfl) fun _ _ ↦ rfl] at htrace
  exact ⟨_, htrace⟩

theorem ridesOut_invocation {i : Invocation} (h : Blind written interrupts output i.run) :
    RidesOut written interrupts output i.run :=
  h.ridesOut fun m ↦ ⟨_, (i.trace_final_run m).1⟩

theorem ridesOut_commandLine {words : List String}
    (h : Blind written interrupts output (Invocation.ofWords (CommandLine.scan words)).run) :
    RidesOut written interrupts output (CommandLine.run words) := by
  refine h.commandLine.ridesOut fun m ↦ ?_
  rw [CommandLine.final_run Machine.spawns fun _ _ ↦ rfl]
  exact ⟨_, (Invocation.trace_final_run _ m).1⟩

end RidesOut

/-! ## Runs that are left -/

/-- The computation starts one program, waits for it so many times, and is left because the last
wait finds the pipe closed. -/
def BreaksOff (waits : Nat) (x : Steps α) (m : Machine) : Prop :=
  ∃ s n, x m = .error .closedPipe n ∧ n.spawns = m.spawns ++ [s] ∧ s.waits = waits

section BreaksOff

variable {m : Machine} {raw : Int} {written : List UInt8} {interrupts : List Interrupt}
  {effects : List Effect} (hchild : m.children.headD .quiet = .exits raw written interrupts effects)
  (hclosed : .closed ∈ interrupts)

include hchild hclosed

theorem breaksOff_start {r : Request} (hcapture : r.capture = true) :
    BreaksOff (interrupts.idxOf .closed + 2) r.start m := by
  refine ⟨_, _, start_eq_error_iff.mpr ⟨?_, rfl⟩, rfl, ?_⟩
  · rw [hchild]
    exact .broken hcapture hclosed
  · rw [hchild, Machine.spawnOf, hcapture]
    exact Child.waits_of_closed hclosed raw written effects

theorem breaksOff_command {i : Invocation} (hcaptures : Captures i.command)
    (hattempt : (i.attempt? m).isSome = true) :
    BreaksOff (interrupts.idxOf .closed + 2) (Command.run i.command i.trailing) m := by
  obtain ⟨e, hfind, he⟩ := hcaptures
  have hhelp : e.action ≠ .help := by
    rw [he]
    decide
  obtain ⟨s, hs⟩ := Option.isSome_iff_exists.mp hattempt
  rw [Invocation.attempt?_of_find? hfind hhelp] at hs
  obtain ⟨r, k, happroach, -⟩ := Entry.exists_approach_of_attempt? hs
  have hready := Entry.approached_of_approach happroach
  obtain ⟨s, n, hstart, hspawns, hwaits⟩ :=
    breaksOff_start (hready.children_eq ▸ hchild) hclosed (hready.captures he)
  refine ⟨s, n, ?_, hready.spawns_eq ▸ hspawns, hwaits⟩
  rw [Command.run_of_find? hfind,
    Entry.run_apply_of_approach (Entry.spawns_iff.mpr hhelp) happroach, Run.bind_apply, hstart]

end BreaksOff

theorem BreaksOff.invocation {waits : Nat} {i : Invocation} {m : Machine}
    (h : BreaksOff waits (Command.run i.command i.trailing) m) : BreaksOff waits i.run m := by
  obtain ⟨s, n, hrun, hattempt⟩ := h
  exact ⟨s, n, by rw [Invocation.run_apply, hrun], hattempt⟩

theorem BreaksOff.commandLine {waits : Nat} {words : List String} {m : Machine}
    (h : BreaksOff waits (Invocation.ofWords (CommandLine.scan words)).run m) :
    BreaksOff waits (CommandLine.run words) m := by
  obtain ⟨s, n, hrun, hattempt⟩ := h
  refine ⟨s, n, ?_, hattempt⟩
  rw [CommandLine.run, hrun]
  rfl

/-! ## Interrupts -/

/-- **Interrupts.** The start of a program hands over what the wait for it hands over, or is left if
that is; and a captured output is handed over from where the last interrupt has left it. What else
comes of a run does not show the interrupts. Where no output is captured, be it in the start of a
program, a command, an invocation or a command line, they all get to the same outcome on the same
machine, and the program is started once and waited for once more than it is interrupted. Where one
is captured, they get to the outcome of a program that writes only what is handed over. And where
the pipe has been closed before an interrupt, the run is left by the next wait. -/
theorem interrupts_ridden_out (written : List UInt8) (interrupts : List Interrupt) :
    (∀ (r : Request) (m : Machine) (raw : Int) (effects : List Effect) (rest : List Child),
      Steps.outcome r.start { m with children := .exits raw written interrupts effects :: rest }
        = (if r.capture then
            if .closed ∈ interrupts then .error .closedPipe
            else .ok (.ok ⟨reportedStatus raw, written.drop (Interrupt.allLost interrupts)⟩)
          else .ok (.ok ⟨reportedStatus raw, []⟩))) ∧
    ((∀ r : Request, r.capture = false → RidesOut written interrupts written r.start) ∧
      (∀ word trailing, ¬Captures word →
        RidesOut written interrupts written (Command.run word trailing)) ∧
      (∀ words, ¬Captures (Invocation.ofWords words).command →
        RidesOut written interrupts written (Invocation.ofWords words).run) ∧
      ∀ words, ¬Captures (Invocation.ofWords (CommandLine.scan words)).command →
        RidesOut written interrupts written (CommandLine.run words)) ∧
    (.closed ∉ interrupts →
      let output := written.drop (Interrupt.allLost interrupts)
      (∀ r : Request, r.capture = true → RidesOut written interrupts output r.start) ∧
        (∀ word trailing, RidesOut written interrupts output (Command.run word trailing)) ∧
        ∀ words, RidesOut written interrupts output (Invocation.ofWords words).run ∧
          RidesOut written interrupts output (CommandLine.run words)) ∧
    (.closed ∈ interrupts →
      ∀ (m : Machine) (raw : Int) (effects : List Effect) (rest : List Child),
        let broken := { m with children := .exits raw written interrupts effects :: rest }
        let waits := interrupts.idxOf .closed + 2
        (∀ r : Request, r.capture = true → BreaksOff waits r.start broken) ∧
        (∀ i : Invocation, Captures i.command → (i.attempt? broken).isSome = true →
          BreaksOff waits (Command.run i.command i.trailing) broken ∧
            BreaksOff waits i.run broken) ∧
        ∀ words, let i := Invocation.ofWords (CommandLine.scan words)
          Captures i.command → (i.attempt? broken).isSome = true →
            BreaksOff waits (CommandLine.run words) broken) := by
  refine ⟨?_, ⟨fun r h ↦ ridesOut_start (blind_start_of_not_capture h), ?_, ?_, ?_⟩, ?_, ?_⟩
  · intro r m raw effects rest
    rcases hcapture : r.capture with _ | _
    · exact Steps.outcome_of_ok
        (start_of_exits rfl (hcapture ▸ Child.received_of_not_capture written interrupts))
    · rw [if_pos rfl]
      split
      · next hclosed =>
        exact Steps.outcome_of_error (start_eq_error_iff.mpr ⟨.broken hcapture hclosed, rfl⟩)
      · next hopen =>
        exact Steps.outcome_of_ok
          (start_of_exits rfl (hcapture ▸ Child.received_of_not_closed hopen written))
  · exact fun word trailing h ↦ ridesOut_command (blind_command_of_not_captures h trailing)
  · exact fun words h ↦ ridesOut_invocation (blind_command_of_not_captures h _).invocation
  · exact fun words h ↦ ridesOut_commandLine (blind_command_of_not_captures h _).invocation
  · intro hopen output
    have h : Child.received true written interrupts = .ok output :=
      Child.received_of_not_closed hopen written
    refine ⟨fun r hr ↦ ridesOut_start (blind_start (by rw [hr, h, if_pos rfl])), ?_, ?_⟩
    · exact fun word trailing ↦ ridesOut_command (blind_command h word trailing)
    · exact fun words ↦ ⟨ridesOut_invocation (blind_command h _ _).invocation,
        ridesOut_commandLine (blind_command h _ _).invocation⟩
  · intro hclosed m raw effects rest broken waits
    have hchild : broken.children.headD .quiet = .exits raw written interrupts effects := rfl
    refine ⟨fun r ↦ breaksOff_start hchild hclosed, ?_, ?_⟩
    · intro i hcaptures hattempt
      have hcommand := breaksOff_command hchild hclosed hcaptures hattempt
      exact ⟨hcommand, hcommand.invocation⟩
    · intro words i hcaptures hattempt
      exact (breaksOff_command hchild hclosed hcaptures hattempt).invocation.commandLine

theorem Machine.run_withDiesel {earlier written output : List UInt8} {raw : Int}
    {interrupts : List Interrupt}
    (hreceived : Child.received true written interrupts = .ok output) :
    let m := withDiesel earlier (.exits raw written interrupts []) []
    let i := Invocation.ofWords ["db:migration:schema"]
    Steps.outcome i.run m = .ok (reportedStatus raw) ∧
      (Steps.final i.run m).files.read (m.route (Path.ofString schemaFile)) = .ok output := by
  intro m i
  obtain ⟨e, hfind, he⟩ := equipped_schema (m := m) isSome_findTool?_withDiesel
  obtain ⟨-, -, ⟨-, hend, hwrite⟩ | ⟨hcannot, -⟩⟩ :=
    Invocation.run_of_received (i := i) hfind he (made_withDiesel rfl) rfl hreceived
  · rw [beforeStore_withDiesel rfl] at hwrite
    exact ⟨Steps.outcome_of_ok hend, (FileSystem.stores_of_write hwrite).read⟩
  · rw [beforeStore_withDiesel rfl] at hcannot
    exact absurd ⟨rfl, rfl, _, write_withDiesel output⟩ hcannot

/-- An interrupt that comes when the first of two bytes has been read keeps that out of the schema,
and one that comes when the pipe has been closed makes the run leave without a schema. -/
theorem interrupt_loses_output :
    let m (interrupts : List Interrupt) :=
      Machine.withDiesel [] (.exits 0 [65, 66] interrupts []) []
    let run := (Invocation.ofWords ["db:migration:schema"]).run
    let schema (interrupts : List Interrupt) :=
      (run.final (m interrupts)).files.read ((m interrupts).route (Path.ofString schemaFile))
    run.outcome (m []) = .ok 0 ∧ schema [] = .ok [65, 66] ∧
      run.outcome (m [.reading 1]) = .ok 0 ∧ schema [.reading 1] = .ok [66] ∧
      run.outcome (m [.closed]) = .error .closedPipe := by
  intro m run schema
  have hwhole := @Machine.run_withDiesel [] [65, 66] [65, 66] 0 [] rfl
  have hpart := @Machine.run_withDiesel [] [65, 66] [66] 0 [.reading 1] rfl
  refine ⟨hwhole.1, hwhole.2, hpart.1, hpart.2, ?_⟩
  obtain ⟨e, hfind, he⟩ :=
    equipped_schema (m := m [.closed]) Machine.isSome_findTool?_withDiesel
  have hbroken : Child.received true [65, 66] [.closed] = .error .closedPipe := rfl
  have hleft := Invocation.run_of_broken (i := Invocation.ofWords ["db:migration:schema"]) hfind he
    (Machine.made_withDiesel rfl) rfl hbroken
  exact Steps.outcome_of_error hleft.1

end Runbook
