import Runbook.Proofs.Dispatch
import Runbook.Proofs.EnvFile.Bindings
import Runbook.Proofs.EnvFile.Loading

/-!
# The environment of a program

A program sees the environment of the run with the values of the env file of its command laid over
it. The values are decided by the text of the file alone, and the text by the machine that the run
starts on: whatever is told on the way, and whatever directory is created for a schema, the env file
was read before.

Where the file has no text it counts for nothing, and the program sees exactly the inherited
environment, as it does when its command has no env file.

The environment of the run itself is part of the machine, and no step writes to it.
-/

namespace Runbook

open Command

namespace Command.Entry

/-- The environment of a program that the command starts on the machine `m`. -/
structure ChildEnvironment (e : Entry) (m : Machine) (child : Keyed String) : Prop where
  /-- No key occurs twice, unless it was inherited twice. -/
  distinct : (m.environment.map Prod.fst).Nodup → (child.map Prod.fst).Nodup
  /-- Without an env file, the environment is inherited as it is. -/
  plain : e.envFile = none → child = m.environment
  /-- The text of an env file is laid over the inherited environment. Where there is no such text,
  the environment is inherited as it is. -/
  overlaid : ∀ name, e.envFile = some name → ∃ p, m.envPath name = .ok p ∧
    (∀ text, m.HoldsText p text → EnvFile.Overlaid m.environment text child) ∧
    ((∀ text, ¬m.HoldsText p text) → child = m.environment)

theorem childEnvironment_of_overlay {e : Entry} {m n : Machine} {overlay : Overlay}
    (h : e.overlay m = .ok overlay n) :
    e.ChildEnvironment m (Keyed.overlay m.environment overlay.values) := by
  obtain ⟨hplain, hname, -⟩ := overlay_of_ok h
  refine ⟨fun hdistinct ↦ Keyed.nodup_keys_overlay _ hdistinct, ?_, ?_⟩
  · intro henv
    rw [hplain henv]
    rfl
  · intro name henv
    obtain ⟨lines, hload⟩ := hname name henv
    obtain ⟨p, hpath, htext, hnone⟩ := Machine.values_of_envOverlay hload
    refine ⟨p, hpath, ?_, ?_⟩
    · intro text hholds
      rw [htext text hholds]
      exact EnvFile.overlaid_overlay_values m.environment text
    · intro hlost
      rw [hnone hlost]
      rfl

theorem childEnvironment_of_attempt? {e : Entry} {trailing : List String} {m : Machine}
    {s : Spawn} (h : e.attempt? trailing m = some s) : e.ChildEnvironment m s.environment := by
  obtain ⟨r, n, happroach, rfl⟩ := exists_approach_of_attempt? h
  have hready := approached_of_approach happroach
  obtain ⟨overlay, stream, hoverlay, hvalues⟩ := hready.values
  have hkept : n.environment = m.environment := hready.part_eq _ (fun _ _ ↦ rfl) fun _ _ ↦ rfl
  show e.ChildEnvironment m (Keyed.overlay n.environment r.environment)
  rw [hkept, hvalues]
  exact childEnvironment_of_overlay hoverlay

theorem keeps_environment_run (e : Entry) (trailing : List String) :
    Keeps Machine.environment (e.run trailing) :=
  keeps_run (fun _ _ ↦ rfl) (fun _ _ ↦ rfl) (fun _ _ ↦ rfl) keeps_environment_start e trailing

end Command.Entry

theorem Invocation.find?_of_attempt? {i : Invocation} {m : Machine} {s : Spawn}
    (h : i.attempt? m = some s) :
    ∃ e, Command.find? i.command = some e ∧ e.attempt? i.trailing m = some s := by
  rw [Invocation.attempt?] at h
  rcases hfind : Command.find? i.command with _ | e
  · rw [hfind] at h
    contradiction
  · rw [hfind] at h
    dsimp only at h
    split at h
    · exact ⟨e, rfl, h⟩
    · contradiction

theorem Invocation.keeps_environment_run (i : Invocation) : Keeps Machine.environment i.run := by
  intro m
  rw [Invocation.final_run Machine.environment (fun _ _ ↦ rfl) fun _ _ ↦ rfl, Command.run]
  rcases Command.find? i.command with _ | e
  · rfl
  · exact Entry.keeps_environment_run e i.trailing m

/-- **The environment of a program.** Whatever becomes of a run, its own environment is as before.
If it has tried to start a program, that got the inherited environment, with what the env file of
its command binds laid over it: a key whose last binding in the file has a value has that value,
with its references replaced, and every other key is inherited. -/
theorem child_environment (i : Invocation) (m : Machine) :
    let n := Steps.final i.run m
    n.environment = m.environment ∧
      (n.spawns = m.spawns ∨ ∃ e s, Command.find? i.command = some e ∧
        n.spawns = m.spawns ++ [s] ∧ e.ChildEnvironment m s.environment) := by
  intro n
  constructor
  · rw [Invocation.final_run Machine.environment (fun _ _ ↦ rfl) fun _ _ ↦ rfl, Command.run]
    rcases Command.find? i.command with _ | e
    · rfl
    · exact Entry.keeps_environment_run e i.trailing m
  · have hn : n.spawns = m.spawns ++ (i.attempt? m).toList := (Invocation.trace_final_run i m).1
    rcases hattempt : i.attempt? m with _ | s
    · rw [hattempt, Option.toList_none, List.append_nil] at hn
      exact .inl hn
    · rw [hattempt] at hn
      obtain ⟨e, hfind, hs⟩ := Invocation.find?_of_attempt? hattempt
      exact .inr ⟨e, s, hfind, hn, Entry.childEnvironment_of_attempt? hs⟩

end Runbook
