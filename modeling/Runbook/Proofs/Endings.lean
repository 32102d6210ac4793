import Runbook.Proofs.Dispatch
import Runbook.Proofs.Table
import Runbook.Proofs.Waits

/-!
# How a run ends

A run that is not left by an escape ends in one of six ways: the word selects no command; the help
is written, or it cannot be written; something stands in the way of the program; the program does
not start; or it has ended, and the command makes something of it. `Command.Ends` lists them, each
with what comes out and the machine behind it, and `run_eq_ok_iff` says that the list is complete
and that every way on it is taken. What holds at the end of a run is then shown by going through the
list once, without looking at the order in which the steps of a command are written down.

A failure that comes out of the command is announced, and the exit status is 1 whatever the failure
is and whether or not the announcement arrives (`Invocation.run_eq_ok_iff`).
-/

namespace Runbook

open Command

/-! ## The start of a program -/

/-- The program of the child does not run. -/
def Child.NeverRuns (child : Child) : Prop :=
  ∀ raw output interrupts effects, child ≠ .exits raw output interrupts effects

theorem Child.NeverRuns.effects_eq {child : Child} (h : child.NeverRuns) : child.effects = [] := by
  rcases child with ⟨raw, output, interrupts, effects⟩ | _ | _ | _
  · exact absurd rfl (h raw output interrupts effects)
  · rfl
  · rfl
  · rfl

theorem Command.Entry.Approached.afterSpawn_of_neverRuns {e : Entry} {trailing : List String}
    {m n : Machine} {r : Request} (h : e.Approached trailing m r n)
    (hnever : (m.children.headD .quiet).NeverRuns) :
    (n.afterSpawn r).files = n.files ∧
      (n.afterSpawn r).workingDirectory = m.workingDirectory := by
  have hafter := h.afterSpawn_eq
  rw [hnever.effects_eq] at hafter
  exact hafter

theorem start_eq_ok_iff {r : Request} {m n : Machine} {result : Except Failure Finished} :
    r.start m = .ok result n ↔
      (m.children.headD .quiet).answer r = .ok result ∧ n = m.afterSpawn r := by
  rw [Request.start]
  rcases (m.children.headD .quiet).answer r with escape | answer
  · constructor
    · rintro ⟨⟩
    · rintro ⟨⟨⟩, -⟩
  · constructor
    · rintro ⟨⟩
      exact ⟨rfl, rfl⟩
    · rintro ⟨⟨rfl⟩, rfl⟩
      rfl

theorem start_of_exits {r : Request} {m : Machine} {raw : Int} {output captured : List UInt8}
    {interrupts : List Interrupt} {effects : List Effect}
    (h : m.children.headD .quiet = .exits raw output interrupts effects)
    (hreceived : Child.received r.capture output interrupts = .ok captured) :
    r.start m = .ok (.ok ⟨reportedStatus raw, captured⟩) (m.afterSpawn r) := by
  rw [start_eq_ok_iff, h, Child.answer, hreceived]
  exact ⟨rfl, rfl⟩

theorem start_eq_answer_iff {r : Request} {m n : Machine} {finished : Finished} :
    r.start m = .ok (.ok finished) n ↔
      ∃ raw output interrupts effects captured,
        m.children.headD .quiet = .exits raw output interrupts effects ∧
          Child.received r.capture output interrupts = .ok captured ∧
          finished = ⟨reportedStatus raw, captured⟩ ∧ n = m.afterSpawn r := by
  constructor
  · intro h
    obtain ⟨hanswer, rfl⟩ := start_eq_ok_iff.mp h
    rcases hchild : m.children.headD .quiet with ⟨raw, output, interrupts, effects⟩ | _ | _ | _
    · rw [hchild, Child.answer] at hanswer
      rcases hreceived : Child.received r.capture output interrupts with escape | captured
      · rw [hreceived] at hanswer
        cases hanswer
      · rw [hreceived] at hanswer
        obtain ⟨⟨rfl⟩⟩ := hanswer
        exact ⟨raw, output, interrupts, effects, captured, rfl, hreceived, rfl, rfl⟩
    all_goals
      rw [hchild, Child.answer] at hanswer
      cases hanswer
  · rintro ⟨raw, output, interrupts, effects, captured, hchild, hreceived, rfl, rfl⟩
    exact start_of_exits hchild hreceived

/-- The error with which the system answers an attempt to start a program. -/
inductive Child.Refuses (r : Request) : Child → SystemError → Prop
  /-- By its number and its text, about the program. -/
  | numbered (number : Int) (text : String) :
    Refuses r (.refused number text) (.numbered number text (some r.program))
  /-- By its kind. -/
  | named (cause : SystemError) : Refuses r (.failed cause) cause

/-- The escape by which a run is left that starts a program, with its output captured or not. -/
inductive Child.Leaves (capture : Bool) : Child → Escape → Prop
  /-- The attempt to start it raises the escape. -/
  | raised (escape : Escape) : Leaves capture (.escaped escape) escape
  /-- The program runs, and a wait for it has to read a pipe that an earlier one has closed. -/
  | broken {raw : Int} {output : List UInt8} {interrupts : List Interrupt} {effects : List Effect}
      (hcapture : capture = true) (hclosed : .closed ∈ interrupts) :
      Leaves capture (.exits raw output interrupts effects) .closedPipe

theorem Child.leaves_exits_iff {capture : Bool} {raw : Int} {output : List UInt8}
    {interrupts : List Interrupt} {effects : List Effect} {escape : Escape} :
    (exits raw output interrupts effects).Leaves capture escape ↔
      received capture output interrupts = .error escape := by
  rw [received_eq_error_iff]
  constructor
  · rintro ⟨⟩
    exact ⟨‹_›, ‹_›, rfl⟩
  · rintro ⟨hcapture, hclosed, rfl⟩
    exact .broken hcapture hclosed

theorem Child.answer_eq_error_iff {r : Request} {child : Child} {escape : Escape} :
    child.answer r = .error escape ↔ child.Leaves r.capture escape := by
  rcases child with ⟨raw, output, interrupts, effects⟩ | _ | _ | raised
  · rw [leaves_exits_iff, Child.answer]
    rcases received r.capture output interrupts with escape' | captured
    · rw [Except.map, Except.error.injEq, Except.error.injEq]
    · constructor <;> rintro ⟨⟩
  · constructor <;> rintro ⟨⟩
  · constructor <;> rintro ⟨⟩
  · constructor
    · rintro ⟨⟩
      exact .raised _
    · rintro ⟨⟩
      rfl

theorem start_eq_error_iff {r : Request} {m n : Machine} {escape : Escape} :
    r.start m = .error escape n ↔
      (m.children.headD .quiet).Leaves r.capture escape ∧ n = m.afterSpawn r := by
  rw [← Child.answer_eq_error_iff, Request.start]
  rcases (m.children.headD .quiet).answer r with escape' | result
  · constructor
    · rintro ⟨⟩
      exact ⟨rfl, rfl⟩
    · rintro ⟨⟨rfl⟩, rfl⟩
      rfl
  · constructor
    · rintro ⟨⟩
    · rintro ⟨⟨⟩, -⟩

theorem start_eq_failure_iff {r : Request} {m n : Machine} {failure : Failure} :
    r.start m = .ok (.error failure) n ↔
      ∃ cause, (m.children.headD .quiet).Refuses r cause ∧ failure = .notStarted r cause ∧
        n = m.afterSpawn r := by
  rw [start_eq_ok_iff]
  constructor
  · rintro ⟨hanswer, rfl⟩
    rcases hchild : m.children.headD .quiet with
      ⟨raw, output, interrupts, effects⟩ | ⟨number, text⟩ | cause | _
    · rw [hchild, Child.answer] at hanswer
      revert hanswer
      rcases Child.received r.capture output interrupts with _ | _
      · rintro ⟨⟩
      · rintro ⟨⟩
    · rw [hchild] at hanswer
      obtain ⟨⟨rfl⟩⟩ := hanswer
      exact ⟨_, .numbered number text, rfl, rfl⟩
    · rw [hchild] at hanswer
      obtain ⟨⟨rfl⟩⟩ := hanswer
      exact ⟨cause, .named cause, rfl, rfl⟩
    · rw [hchild] at hanswer
      cases hanswer
  · rintro ⟨cause, hrefuses, rfl, rfl⟩
    generalize m.children.headD .quiet = child at hrefuses
    cases hrefuses <;> exact ⟨rfl, rfl⟩

theorem Child.Refuses.neverRuns {r : Request} {child : Child} {cause : SystemError}
    (h : child.Refuses r cause) : child.NeverRuns := by
  rintro _ _ _ _ rfl
  cases h

theorem start_of_failure {r : Request} {m n : Machine} {failure : Failure}
    (h : r.start m = .ok (.error failure) n) :
    (∃ cause, failure = .notStarted r cause) ∧ (m.children.headD .quiet).NeverRuns ∧
      n = m.afterSpawn r := by
  obtain ⟨cause, hrefuses, rfl, rfl⟩ := start_eq_failure_iff.mp h
  exact ⟨⟨cause, rfl⟩, hrefuses.neverRuns, rfl⟩

theorem Command.Entry.run_of_leaves {e : Entry} (hspawns : e.spawns = true)
    {trailing : List String} {m k : Machine} {r : Request}
    (happroach : e.approach trailing m = .ok (.ok r) k) {escape : Escape}
    (hleaves : (m.children.headD .quiet).Leaves r.capture escape) :
    e.run trailing m = .error escape (k.afterSpawn r) := by
  have hready := approached_of_approach happroach
  rw [← hready.children_eq] at hleaves
  rw [run_apply_of_approach hspawns happroach, Run.bind_apply,
    start_eq_error_iff.mpr ⟨hleaves, rfl⟩]

/-- A command that captures the output of its program is left if the wait for that is. -/
theorem Command.Entry.run_of_broken {e : Entry} (he : e.action = .schema) {trailing : List String}
    {m k : Machine} {r : Request} (happroach : e.approach trailing m = .ok (.ok r) k) {raw : Int}
    {written : List UInt8} {interrupts : List Interrupt} {effects : List Effect}
    (hchild : m.children.headD .quiet = .exits raw written interrupts effects) {escape : Escape}
    (hbroken : Child.received true written interrupts = .error escape) :
    e.run trailing m = .error escape (k.afterSpawn r) := by
  have hspawns : e.spawns = true := by
    rw [spawns_iff, he]
    decide
  refine run_of_leaves hspawns happroach ?_
  rw [hchild, (approached_of_approach happroach).captures he]
  exact Child.leaves_exits_iff.mpr hbroken

theorem printOut_of_write {m : Machine} {text : String} {stream : Stream}
    {arrived : Except SystemError Unit} (h : m.stdout.write text = (arrived, stream)) :
    printOut text m = .ok (arrived.mapError (.stdoutFailed text)) { m with stdout := stream } := by
  rw [printOut, h]

/-! ## The list of endings -/

/-- What comes out of a command, and the machine behind it. -/
inductive Command.Ends (word : String) (trailing : List String) (m : Machine) :
    Except Failure Int → Machine → Prop where
  /-- The word selects no command. -/
  | unknown (hfind : find? word = none) : Ends word trailing m (.error (.unknownCommand word)) m
  /-- The help is written. -/
  | helped {e : Entry} {stream : Stream} (hfind : find? word = some e) (he : e.action = .help)
      (hwrite : m.stdout.write (help programName) = (.ok (), stream)) :
      Ends word trailing m (.ok 0) { m with stdout := stream }
  /-- The help cannot be written. -/
  | unhelped {e : Entry} {stream : Stream} {cause : SystemError} (hfind : find? word = some e)
      (he : e.action = .help)
      (hwrite : m.stdout.write (help programName) = (.error cause, stream)) :
      Ends word trailing m (.error (.stdoutFailed (help programName) cause))
        { m with stdout := stream }
  /-- Something stands in the way of the program. -/
  | blocked {e : Entry} {failure : Failure} {n : Machine} (hfind : find? word = some e)
      (he : e.action ≠ .help) (happroach : e.approach trailing m = .ok (.error failure) n) :
      Ends word trailing m (.error failure) n
  /-- The program does not start. -/
  | refused {e : Entry} {r : Request} {k n : Machine} {failure : Failure}
      (hfind : find? word = some e) (he : e.action ≠ .help)
      (happroach : e.approach trailing m = .ok (.ok r) k)
      (hstart : r.start k = .ok (.error failure) n) : Ends word trailing m (.error failure) n
  /-- The program has ended, and the command makes something of it. -/
  | ended {e : Entry} {r : Request} {k l n : Machine} {finished : Finished}
      {result : Except Failure Int} (hfind : find? word = some e) (he : e.action ≠ .help)
      (happroach : e.approach trailing m = .ok (.ok r) k)
      (hstart : r.start k = .ok (.ok finished) l)
      (hsettle : e.settle finished l = .ok result n) : Ends word trailing m result n

theorem Command.Entry.run_of_help {e : Entry} (he : e.action = .help) (trailing : List String) :
    e.run trailing = (do
      printOut (help programName)
      return 0) := by
  have hspawns : ¬e.spawns = true := fun h ↦ spawns_iff.mp h he
  rw [run, if_neg hspawns]

theorem Command.run_of_find? {word : String} {e : Entry} (hfind : find? word = some e)
    (trailing : List String) : run word trailing = e.run trailing := by
  rw [run, hfind]

theorem Command.ends_of_run {word : String} {trailing : List String} {m n : Machine}
    {result : Except Failure Int} (h : run word trailing m = .ok result n) :
    Ends word trailing m result n := by
  rcases hfind : find? word with _ | e
  · rw [run, hfind] at h
    obtain ⟨rfl, rfl⟩ := EStateM.Result.ok.inj h
    exact .unknown hfind
  · rw [run_of_find? hfind] at h
    -- A command that starts a program is cut at it, and each part may be the last one.
    by_cases he : e.action = .help
    · rw [Entry.run_of_help he, Run.bind_apply] at h
      rcases hwrite : m.stdout.write (help programName) with ⟨cause | _, stream⟩
      · rw [printOut_of_write hwrite] at h
        obtain ⟨rfl, rfl⟩ := EStateM.Result.ok.inj h
        exact .unhelped hfind he hwrite
      · rw [printOut_of_write hwrite] at h
        obtain ⟨rfl, rfl⟩ := EStateM.Result.ok.inj h
        exact .helped hfind he hwrite
    · rw [Entry.run_eq_approach (Entry.spawns_iff.mpr he)] at h
      rcases Run.bind_eq_ok_iff.mp h with ⟨failure, rfl, happroach⟩ | ⟨r, k, happroach, hrest⟩
      · exact .blocked hfind he happroach
      · rcases Run.bind_eq_ok_iff.mp hrest with ⟨failure, rfl, hstart⟩ | ⟨f, l, hstart, hsettle⟩
        · exact .refused hfind he happroach hstart
        · exact .ended hfind he happroach hstart hsettle

theorem Command.run_of_ends {word : String} {trailing : List String} {m n : Machine}
    {result : Except Failure Int} (h : Ends word trailing m result n) :
    run word trailing m = .ok result n := by
  have hcut : ∀ {e : Entry}, e.action ≠ .help → e.run trailing = _ :=
    fun he ↦ Entry.run_eq_approach (Entry.spawns_iff.mpr he) trailing
  cases h with
  | unknown hfind =>
    rw [run, hfind]
    rfl
  | helped hfind he hwrite | unhelped hfind he hwrite =>
    rw [run_of_find? hfind, Entry.run_of_help he, Run.bind_apply, printOut_of_write hwrite]
    rfl
  | blocked hfind he happroach =>
    rw [run_of_find? hfind, hcut he, Run.bind_eq_ok_iff]
    exact .inl ⟨_, rfl, happroach⟩
  | refused hfind he happroach hstart =>
    rw [run_of_find? hfind, hcut he, Run.bind_eq_ok_iff]
    refine .inr ⟨_, _, happroach, ?_⟩
    rw [Run.bind_eq_ok_iff]
    exact .inl ⟨_, rfl, hstart⟩
  | ended hfind he happroach hstart hsettle =>
    rw [run_of_find? hfind, hcut he, Run.bind_eq_ok_iff]
    refine .inr ⟨_, _, happroach, ?_⟩
    rw [Run.bind_eq_ok_iff]
    exact .inr ⟨_, _, hstart, hsettle⟩

/-- **The endings of a command.** A command that is not left ends in one of the listed ways, and
each of them is the end of a command. -/
theorem Command.run_eq_ok_iff {word : String} {trailing : List String} {m n : Machine}
    {result : Except Failure Int} :
    run word trailing m = .ok result n ↔ Ends word trailing m result n :=
  ⟨ends_of_run, run_of_ends⟩

/-! ## From the command to the exit status -/

theorem Invocation.run_apply (i : Invocation) (m : Machine) :
    i.run m = match Command.run i.command i.trailing m with
      | .ok (.ok status) n => .ok status n
      | .ok (.error f) n => .ok 1 (Steps.final f.announce n)
      | .error e n => .error e n := by
  refine (Steps.bind_apply _ _ m).trans ?_
  rw [ExceptT.run]
  rcases Command.run i.command i.trailing m with ⟨f | status, n⟩ | ⟨e, n⟩
  · exact announce_apply f n
  · rfl
  · rfl

theorem Invocation.run_of_answer {i : Invocation} {m n : Machine} {status : Int}
    (h : Command.run i.command i.trailing m = .ok (.ok status) n) : i.run m = .ok status n := by
  rw [Invocation.run_apply, h]

theorem Invocation.run_of_failure {i : Invocation} {m n : Machine} {f : Failure}
    (h : Command.run i.command i.trailing m = .ok (.error f) n) :
    i.run m = .ok 1 (Steps.final f.announce n) := by
  rw [Invocation.run_apply, h]

/-- **The endings of a run.** An answer of the command is the exit status, and a failure is
announced and makes it 1. -/
theorem Invocation.run_eq_ok_iff {i : Invocation} {m n : Machine} {status : Int} :
    i.run m = .ok status n ↔
      Command.Ends i.command i.trailing m (.ok status) n ∨
        ∃ f k, Command.Ends i.command i.trailing m (.error f) k ∧ status = 1 ∧
          n = Steps.final f.announce k := by
  simp only [← Command.run_eq_ok_iff]
  rw [Invocation.run_apply]
  rcases Command.run i.command i.trailing m with ⟨f | answer, k⟩ | ⟨e, k⟩
  · constructor
    · rintro ⟨⟩
      exact .inr ⟨f, k, rfl, rfl, rfl⟩
    · rintro (h | ⟨_, _, h, rfl, rfl⟩) <;> cases h
      rfl
  · constructor
    · rintro ⟨⟩
      exact .inl rfl
    · rintro (h | ⟨_, _, h, -⟩) <;> cases h
      rfl
  · constructor
    · rintro ⟨⟩
    · rintro (h | ⟨_, _, h, -⟩) <;> cases h

end Runbook
