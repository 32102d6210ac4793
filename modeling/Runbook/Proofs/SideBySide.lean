import Runbook.Proofs.Steps

/-!
# Two runs side by side

Some facts about runs need two of them: what a run does not look at cannot be seen in one run. Two
machines are put in relation, the same steps are taken on both, and the runs must come to the same
outcome on machines that are in relation again. A computation for which that holds on all machines
respects the relation.

A sequence respects a relation if its steps do (`Respects.bind`), and so a whole run respects every
relation that the few steps that look at a machine respect (`Respected.run`). What those steps are
is listed in `Respected`; loading an env file is left out of the list, since the relations of
interest are those on which it is what makes the difference. Two parts of the list are set apart.
Only the help writes to standard output, and only a command that stores a schema captures an output,
creates directories and writes files. A relation that these steps do not respect is still respected
by every other command.
-/

namespace Runbook

open Command

variable {α β : Type}

/-- What comes out of a computation, without the machine behind it. -/
def Steps.outcome (x : Steps α) (m : Machine) : Except Escape α :=
  match x m with
  | .ok a _ => .ok a
  | .error e _ => .error e

theorem Steps.outcome_of_ok {x : Steps α} {m n : Machine} {a : α} (h : x m = .ok a n) :
    x.outcome m = .ok a := by
  rw [Steps.outcome, h]

theorem Steps.outcome_of_error {x : Steps α} {m n : Machine} {e : Escape} (h : x m = .error e n) :
    x.outcome m = .error e := by
  rw [Steps.outcome, h]

/-- Two computations have come to the same outcome, on machines that are in relation. -/
inductive SameOutcome (R : Machine → Machine → Prop) :
    EStateM.Result Escape Machine α → EStateM.Result Escape Machine α → Prop
  /-- Both have got to their ends with the same answer. -/
  | ok (a : α) {n n' : Machine} (h : R n n') : SameOutcome R (.ok a n) (.ok a n')
  /-- Both are left by the same escape. -/
  | error (e : Escape) {n n' : Machine} (h : R n n') : SameOutcome R (.error e n) (.error e n')

/-- A computation does not tell machines in relation apart. -/
def Respects (R : Machine → Machine → Prop) (x : Steps α) : Prop :=
  ∀ m m', R m m' → SameOutcome R (x m) (x m')

section Respects

variable {R : Machine → Machine → Prop}

/-! ### From two machines

The steps of a sequence need not all respect the relation: it is enough that the first ones come to
the same outcome on the two machines at hand. -/

namespace SameOutcome

variable {m m' : Machine}

theorem bind {x : Steps α} {f : α → Steps β} (hx : SameOutcome R (x m) (x m'))
    (hf : ∀ a, Respects R (f a)) : SameOutcome R ((x >>= f) m) ((x >>= f) m') := by
  rw [Steps.bind_apply, Steps.bind_apply]
  generalize x m = y, x m' = y' at hx
  cases hx with
  | ok a h => exact hf a _ _ h
  | error e h => exact .error e h

theorem bindRun {x : Run α} {f : α → Run β} (hx : SameOutcome R (x m) (x m'))
    (hf : ∀ a, Respects R (f a)) :
    SameOutcome R ((x >>= f : Run β) m) ((x >>= f : Run β) m') := by
  refine bind hx fun result ↦ ?_
  rcases result with failure | a
  · exact fun _ _ h ↦ .ok _ h
  · exact hf a

theorem lift {x : Steps α} (hx : SameOutcome R (x m) (x m')) :
    SameOutcome R ((liftM x : Run α) m) ((liftM x : Run α) m') :=
  bind hx fun _ _ _ h ↦ .ok _ h

end SameOutcome

/-! ### From any two machines in relation -/

namespace Respects

theorem outcome_eq {x : Steps α} (hx : Respects R x) {m m' : Machine} (h : R m m') :
    x.outcome m' = x.outcome m := by
  have hsame := hx m m' h
  rw [Steps.outcome, Steps.outcome]
  generalize x m = y, x m' = y' at hsame
  cases hsame <;> rfl

theorem final {x : Steps α} (hx : Respects R x) {m m' : Machine} (h : R m m') :
    R (x.final m) (x.final m') := by
  have hsame := hx m m' h
  rw [Steps.final, Steps.final]
  generalize x m = y, x m' = y' at hsame
  cases hsame <;> assumption

theorem pure (a : α) : Respects R (Pure.pure a : Steps α) := fun _ _ h ↦ .ok a h

theorem escape (e : Escape) : Respects R (fun m ↦ .error e m : Steps α) := fun _ _ h ↦ .error e h

theorem bind {x : Steps α} {f : α → Steps β} (hx : Respects R x) (hf : ∀ a, Respects R (f a)) :
    Respects R (x >>= f) := fun m m' h ↦ (hx m m' h).bind hf

theorem bindRun {x : Run α} {f : α → Run β} (hx : Respects R x) (hf : ∀ a, Respects R (f a)) :
    Respects R (x >>= f : Run β) := fun m m' h ↦ (hx m m' h).bindRun hf

end Respects

end Respects

/-! ## Whole runs -/

/-- The steps of a command that hands the status of its program on do not tell machines in relation
apart, those that load an env file left aside. -/
structure RespectedByExec (R : Machine → Machine → Prop) : Prop where
  /-- Standard error takes the same. -/
  tell : ∀ text, Respects R (tell text)
  /-- The journal takes the same. -/
  note : ∀ message, Respects R (note message)
  /-- The same tools are found. -/
  checkTool : ∀ m m', R m m' → ∀ e, m'.checkTool e = m.checkTool e
  /-- The same programs start, and end in the same way, if their output is not captured. -/
  startPlain : ∀ r, r.capture = false → Respects R (Request.start r)

/-- The steps of a run that look at the machine do not tell machines in relation apart, those that
load an env file and those that write the help left aside. -/
structure RespectedBeyondHelp (R : Machine → Machine → Prop) : Prop extends RespectedByExec R where
  /-- The same directories can be created. -/
  createDirectory : ∀ p, Respects R (createDirectory p)
  /-- The same programs start, and end in the same way. -/
  start : ∀ r, Respects R (Request.start r)
  /-- The same files can be written. -/
  writeFile : ∀ p content, Respects R (writeFile p content)
  startPlain := fun r _ ↦ start r

/-- The steps of a run that look at the machine do not tell machines in relation apart, those that
load an env file left aside. -/
structure Respected (R : Machine → Machine → Prop) : Prop extends RespectedBeyondHelp R where
  /-- Standard output takes the same. -/
  printOut : ∀ text, Respects R (printOut text)

theorem capture_of_request {e : Entry} {overlay : Overlay} {trailing : List String} {r : Request}
    (h : e.request overlay trailing = .ok r) : r.capture = false := by
  rw [Entry.request] at h
  rcases hprogram : e.program with _ | program
  · rw [hprogram] at h
    contradiction
  · rw [hprogram] at h
    obtain rfl := Except.ok.inj h
    rfl

namespace RespectedByExec

variable {R : Machine → Machine → Prop}

theorem announce (h : RespectedByExec R) (f : Failure) : Respects R f.announce := by
  refine (h.note _).bind fun _ ↦ (h.tell _).bind fun _ ↦ ?_
  split
  · exact ((h.tell _).bind fun _ ↦ h.tell _).bind fun _ ↦ .pure _
  · exact .pure _

theorem startEntry (h : RespectedByExec R) {e : Entry} (he : e.action ≠ .schema)
    (overlay : Overlay) (trailing : List String) : Respects R (e.start overlay trailing) := by
  rw [Entry.start]
  rcases hr : e.request overlay trailing with escape | r
  · exact .escape escape
  · dsimp only
    split
    · next hschema => exact absurd hschema he
    · exact (h.startPlain r (capture_of_request hr)).bindRun fun _ ↦ .pure _

/-- A command whose env file is loaded to the same outcome on two machines in relation. -/
theorem sameOutcome_runEntry (h : RespectedByExec R) {e : Entry} (hspawns : e.spawns = true)
    {m m' : Machine} (hR : R m m') (hoverlay : SameOutcome R (e.overlay m) (e.overlay m'))
    {trailing : List String} (hstart : ∀ overlay, Respects R (e.start overlay trailing)) :
    SameOutcome R (e.run trailing m) (e.run trailing m') := by
  rw [Entry.run, if_pos hspawns, Run.bind_apply, Run.bind_apply, Entry.checkTool, Entry.checkTool,
    h.checkTool m m' hR]
  rcases m.checkTool e with failure | found
  · exact .ok _ hR
  · exact hoverlay.lift.bindRun hstart

/-- The command that a word selects, whatever part of the list its start needs. -/
theorem sameOutcome_runCommand (h : RespectedByExec R) (hprint : ∀ text, Respects R (printOut text))
    {word : String} {trailing : List String} {m m' : Machine} (hR : R m m')
    (hoverlay : ∀ e, find? word = some e → SameOutcome R (e.overlay m) (e.overlay m'))
    (hstart : ∀ e, find? word = some e → ∀ overlay, Respects R (e.start overlay trailing)) :
    SameOutcome R (Command.run word trailing m) (Command.run word trailing m') := by
  rw [Command.run]
  rcases hfind : find? word with _ | e
  · exact .ok _ hR
  · dsimp only
    by_cases hspawns : e.spawns = true
    · exact h.sameOutcome_runEntry hspawns hR (hoverlay e hfind) (hstart e hfind)
    · rw [Entry.run, if_neg hspawns]
      exact ((hprint _).bindRun fun _ ↦ .pure _) m m' hR

theorem runCommand (h : RespectedByExec R) (hprint : ∀ text, Respects R (printOut text))
    {word : String} (trailing : List String)
    (hoverlay : ∀ e, find? word = some e → Respects R e.overlay)
    (hplain : ∀ e, find? word = some e → e.action ≠ .schema) :
    Respects R (Command.run word trailing) := fun m m' hR ↦
  h.sameOutcome_runCommand hprint hR (fun e hfind ↦ hoverlay e hfind m m' hR)
    fun e hfind overlay ↦ h.startEntry (hplain e hfind) overlay trailing

theorem sameOutcome_run (h : RespectedByExec R) {i : Invocation} {m m' : Machine}
    (hcommand : SameOutcome R (Command.run i.command i.trailing m)
      (Command.run i.command i.trailing m')) : SameOutcome R (i.run m) (i.run m') := by
  refine SameOutcome.bind hcommand fun result ↦ ?_
  rcases result with f | status
  · exact h.announce f
  · exact .pure _

/-- A run respects every relation that its steps respect, if the command that it selects does. -/
theorem run (h : RespectedByExec R) {i : Invocation}
    (hcommand : Respects R (Command.run i.command i.trailing)) : Respects R i.run :=
  fun m m' hR ↦ h.sameOutcome_run (hcommand m m' hR)

end RespectedByExec

namespace RespectedBeyondHelp

variable {R : Machine → Machine → Prop}

theorem storeSchema (h : RespectedBeyondHelp R) (r : Request) : Respects R (storeSchema r) := by
  unfold Runbook.storeSchema
  simp only [Run.discard_bind]
  refine (h.createDirectory _).bindRun fun _ ↦ (h.start _).bindRun fun finished ↦ ?_
  exact (h.writeFile _ _).bindRun fun _ ↦ .pure _

theorem startEntry (h : RespectedBeyondHelp R) (e : Entry) (overlay : Overlay)
    (trailing : List String) : Respects R (e.start overlay trailing) := by
  by_cases he : e.action = .schema
  · rw [Entry.start]
    rcases e.request overlay trailing with escape | r
    · exact .escape escape
    · rw [he]
      exact h.storeSchema r
  · exact h.toRespectedByExec.startEntry he overlay trailing

theorem runEntry_of_spawns (h : RespectedBeyondHelp R) {e : Entry} (hspawns : e.spawns = true)
    (hoverlay : Respects R e.overlay) (trailing : List String) : Respects R (e.run trailing) :=
  fun m m' hR ↦ h.sameOutcome_runEntry hspawns hR (hoverlay m m' hR)
    fun overlay ↦ h.startEntry e overlay trailing

end RespectedBeyondHelp

namespace Respected

variable {R : Machine → Machine → Prop}

/-- The command that a word selects, if its env file is loaded to the same outcome on two machines
in relation. -/
theorem sameOutcome_runCommand (h : Respected R) {word : String} (trailing : List String)
    {m m' : Machine} (hR : R m m')
    (hoverlay : ∀ e, find? word = some e → SameOutcome R (e.overlay m) (e.overlay m')) :
    SameOutcome R (Command.run word trailing m) (Command.run word trailing m') :=
  h.toRespectedByExec.sameOutcome_runCommand h.printOut hR hoverlay fun e _ overlay ↦
    h.startEntry e overlay trailing

theorem runCommand (h : Respected R) {word : String} (trailing : List String)
    (hoverlay : ∀ e, find? word = some e → Respects R e.overlay) :
    Respects R (Command.run word trailing) :=
  fun m m' hR ↦ h.sameOutcome_runCommand trailing hR fun e hfind ↦ hoverlay e hfind m m' hR

theorem sameOutcome_run (h : Respected R) {i : Invocation} {m m' : Machine} (hR : R m m')
    (hoverlay : ∀ e, find? i.command = some e → SameOutcome R (e.overlay m) (e.overlay m')) :
    SameOutcome R (i.run m) (i.run m') :=
  h.toRespectedByExec.sameOutcome_run (h.sameOutcome_runCommand i.trailing hR hoverlay)

/-- **Two runs.** A run respects every relation that its steps respect, if the command that it
selects loads no env file in which the relation could be seen. -/
theorem run (h : Respected R) {i : Invocation}
    (hoverlay : ∀ e, find? i.command = some e → Respects R e.overlay) : Respects R i.run :=
  h.toRespectedByExec.run (h.runCommand i.trailing hoverlay)

end Respected

/-! ## Loading

An env file is told about line by line, and what is told is all that loading does to a machine. -/

/-- An env file is loaded to the same outcome on two machines in relation if it has the same overlay
and lines on them. -/
theorem sameOutcome_load {R : Machine → Machine → Prop} (htell : ∀ text, Respects R (tell text))
    {m m' : Machine} (hR : R m m') {name : String}
    (hsame : m'.envOverlay name = m.envOverlay name) :
    SameOutcome R (Overlay.load name m) (Overlay.load name m') := by
  have hlines : ∀ lines : List String,
      Respects R (lines.forM fun line ↦ tell (line ++ "\n")) := by
    intro lines
    induction lines with
    | nil => exact .pure _
    | cons line rest ih => exact (htell _).bind fun _ ↦ ih
  rw [Overlay.load, Overlay.load, hsame]
  rcases m.envOverlay name with escape | ⟨overlay, lines⟩
  · exact .error escape hR
  · exact (hlines lines).bind (fun _ ↦ .pure _) m m' hR

/-! ## What happens off the stage

Many relations of interest are about what goes in and out of a run, and not about the scene on which
it acts: the files, the environment, the places in the files, the refused operations. The steps that
look at the scene only respect all of them. -/

/-- The machines differ at most in their queues, streams and traces. -/
inductive Machine.SameScene (m : Machine) : Machine → Prop
  /-- All else is the same. -/
  | intro (children : List Child) (stdout stderr : Stream) (spawns : List Spawn)
      (journal : List String) :
    SameScene m { m with
      children := children, stdout := stdout, stderr := stderr, spawns := spawns
      journal := journal }

/-- Machines in relation share their scene, and still do so after the same change of files. -/
structure Offstage (R : Machine → Machine → Prop) : Prop where
  /-- The scene is the same. -/
  scene : ∀ {m m'}, R m m' → m.SameScene m'
  /-- The files may change. -/
  files : ∀ {m m'}, R m m' → ∀ files, R { m with files := files } { m' with files := files }

namespace Offstage

variable {R : Machine → Machine → Prop}

theorem checkTool (h : Offstage R) (m m' : Machine) (hR : R m m') (e : Entry) :
    m'.checkTool e = m.checkTool e := by
  obtain ⟨children, stdout, stderr, spawns, journal⟩ := h.scene hR
  rfl

theorem createDirectory (h : Offstage R) (p : Path) : Respects R (createDirectory p) := by
  intro m m' hR
  have hfiles := h.files hR
  obtain ⟨children, stdout, stderr, spawns, journal⟩ := h.scene hR
  rw [Runbook.createDirectory, Runbook.createDirectory]
  split
  · exact .error _ hR
  · dsimp only
    split
    · exact .error _ hR
    · exact .ok _ (hfiles _)

theorem writeFile (h : Offstage R) (p : Path) (content : List UInt8) :
    Respects R (writeFile p content) := by
  intro m m' hR
  have hfiles := h.files hR
  obtain ⟨children, stdout, stderr, spawns, journal⟩ := h.scene hR
  have hroute : Machine.route { m with
      children := children, stdout := stdout, stderr := stderr, spawns := spawns
      journal := journal } p = m.route p := rfl
  rw [Runbook.writeFile, Runbook.writeFile]
  dsimp only
  rw [hroute]
  rcases Fault.error? m.faults .write p.toString with _ | e
  · dsimp only
    split
    · exact .error _ hR
    · rcases m.files.write (m.route p) (Fault.portion m.faults p.toString content).1 with
        code | files
      · exact .ok _ hR
      · exact .ok _ (hfiles files)
  · exact .ok _ hR

theorem load (h : Offstage R) (htell : ∀ text, Respects R (tell text)) (name : String) :
    Respects R (Overlay.load name) := by
  intro m m' hR
  have hsame : m'.envOverlay name = m.envOverlay name := by
    obtain ⟨children, stdout, stderr, spawns, journal⟩ := h.scene hR
    rfl
  exact sameOutcome_load htell hR hsame

theorem overlay (h : Offstage R) (htell : ∀ text, Respects R (tell text)) (e : Entry) :
    Respects R e.overlay := by
  rw [Entry.overlay]
  split
  · exact .pure _
  · exact h.load htell _

end Offstage

/-- The start of a program looks at the next child, whatever the relation is about. -/
theorem respects_start_of_afterSpawn {R : Machine → Machine → Prop} {r : Request}
    (hnext : ∀ {m m'}, R m m' → m'.children.headD .quiet = m.children.headD .quiet)
    (hafter : ∀ {m m'}, R m m' → R (m.afterSpawn r) (m'.afterSpawn r)) :
    Respects R r.start := by
  intro m m' hR
  rw [Request.start, Request.start, hnext hR]
  rcases (m.children.headD .quiet).answer r with escape | result
  · exact .error escape (hafter hR)
  · exact .ok result (hafter hR)

/-! ## Command lines -/

/-- A command line comes to the same outcome as its invocation does, if telling about an abort
respects the relation. -/
theorem SameOutcome.commandLine {R : Machine → Machine → Prop}
    (htell : ∀ text, Respects R (mustTell text)) {words : List String} {m m' : Machine}
    (h : SameOutcome R ((Invocation.ofWords (CommandLine.scan words)).run m)
      ((Invocation.ofWords (CommandLine.scan words)).run m')) :
    SameOutcome R (CommandLine.run words m) (CommandLine.run words m') := by
  have habort : Respects R CommandLine.tellAbort :=
    (htell _).bind fun _ ↦ (htell _).bind fun _ ↦ .pure _
  rw [CommandLine.run, CommandLine.run]
  generalize (Invocation.ofWords (CommandLine.scan words)).run m = y,
    (Invocation.ofWords (CommandLine.scan words)).run m' = y' at h
  cases h with
  | ok status hR => exact .ok status hR
  | error escape hR =>
    dsimp only
    split
    · exact habort _ _ hR
    · exact .error escape hR

theorem Respects.commandLine {R : Machine → Machine → Prop}
    (htell : ∀ text, Respects R (mustTell text)) {words : List String}
    (h : Respects R (Invocation.ofWords (CommandLine.scan words)).run) :
    Respects R (CommandLine.run words) := fun m m' hR ↦ (h m m' hR).commandLine htell

end Runbook
