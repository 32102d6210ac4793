import Runbook.Process

/-!
# Waiting for a program

A run waits for its program until a wait is not broken by an interrupt. If the output is not
captured, that is all that an interrupt does. If it is captured, each wait reads the pipe from where
the one before it has left off and gives up what that one had read, so what the last wait hands over
is a last part of the output (`Child.received_eq_ok_iff`); and once a wait has closed the pipe, the
next one fails (`Child.received_eq_error_iff`).
-/

namespace Runbook

def Interrupt.lost : Interrupt → Nat
  | .reading lost => lost
  | .closed => 0

def Interrupt.allLost : List Interrupt → Nat
  | [] => 0
  | i :: rest => i.lost + allLost rest

namespace Child

variable {output received' : List UInt8} {interrupts : List Interrupt} {escape : Escape}

/-! ## The loop -/

theorem await_of_not_capture (output : List UInt8) (interrupts : List Interrupt) (waits : Nat) :
    await false output interrupts waits = (.ok [], waits + interrupts.length + 1) := by
  induction interrupts generalizing output waits with
  | nil => rfl
  | cons i rest ih =>
    rw [List.length_cons, ← Nat.add_assoc, Nat.add_right_comm waits]
    cases i with
    | reading lost => exact ih _ _
    | closed => exact ih _ _

/-- While the pipe is open, each interrupt costs what it costs and one more wait. -/
theorem await_of_not_closed (h : .closed ∉ interrupts) (output : List UInt8) (waits : Nat) :
    await true output interrupts waits
      = (.ok (output.drop (Interrupt.allLost interrupts)), waits + interrupts.length + 1) := by
  induction interrupts generalizing output waits with
  | nil => rfl
  | cons i rest ih =>
    rw [List.mem_cons, not_or] at h
    cases i with
    | reading lost =>
      rw [await, ih h.2, Interrupt.allLost, List.drop_drop, List.length_cons, Interrupt.lost,
        ← Nat.add_assoc, Nat.add_right_comm waits]
    | closed => exact absurd rfl h.1

/-- The wait after one that has closed the pipe is the last one, and fails. -/
theorem await_of_closed (h : .closed ∈ interrupts) (output : List UInt8) (waits : Nat) :
    await true output interrupts waits
      = (.error .closedPipe, waits + interrupts.idxOf .closed + 2) := by
  induction interrupts generalizing output waits with
  | nil => cases h
  | cons i rest ih =>
    cases i with
    | reading lost =>
      have hrest : .closed ∈ rest := (List.mem_cons.mp h).resolve_left (by rintro ⟨⟩)
      have hlater : (Interrupt.reading lost :: rest).idxOf .closed = rest.idxOf .closed + 1 := by
        rw [List.idxOf_cons]
        rfl
      rw [await, ih hrest, hlater, ← Nat.add_assoc, Nat.add_right_comm waits]
    | closed => rw [await, if_pos rfl, List.idxOf_cons_self, Nat.add_zero]

/-! ## What is handed over -/

theorem received_of_not_capture (output : List UInt8) (interrupts : List Interrupt) :
    received false output interrupts = .ok [] := by
  rw [received, await_of_not_capture]

theorem received_of_not_closed (h : .closed ∉ interrupts) (output : List UInt8) :
    received true output interrupts = .ok (output.drop (Interrupt.allLost interrupts)) := by
  rw [received, await_of_not_closed h]

theorem received_of_closed (h : .closed ∈ interrupts) (output : List UInt8) :
    received true output interrupts = .error .closedPipe := by
  rw [received, await_of_closed h]

theorem received_nil (capture : Bool) (output : List UInt8) :
    received capture output [] = .ok (if capture then output else []) := rfl

/-- **What a capture gets.** It gets the output without what each interrupt costs, as long as none
of them finds the pipe closed. -/
theorem received_eq_ok_iff : received true output interrupts = .ok received' ↔
    .closed ∉ interrupts ∧ received' = output.drop (Interrupt.allLost interrupts) := by
  by_cases h : .closed ∈ interrupts
  · rw [received_of_closed h]
    constructor
    · rintro ⟨⟩
    · rintro ⟨hopen, -⟩
      exact absurd h hopen
  · rw [received_of_not_closed h, Except.ok.injEq, eq_comm]
    exact ⟨fun heq ↦ ⟨h, heq⟩, And.right⟩

/-- **When a wait fails.** Only a capture can fail, when an interrupt has found the pipe closed. -/
theorem received_eq_error_iff {capture : Bool} :
    received capture output interrupts = .error escape ↔
      capture = true ∧ .closed ∈ interrupts ∧ escape = .closedPipe := by
  cases capture with
  | false =>
    rw [received_of_not_capture]
    constructor <;> rintro ⟨⟩
    contradiction
  | true =>
    by_cases h : .closed ∈ interrupts
    · rw [received_of_closed h, Except.error.injEq, eq_comm]
      exact ⟨fun heq ↦ ⟨rfl, h, heq⟩, fun heq ↦ heq.2.2⟩
    · rw [received_of_not_closed h]
      constructor
      · rintro ⟨⟩
      · rintro ⟨-, hclosed, -⟩
        exact absurd hclosed h

/-- A program is waited for once, and once more for each interrupt, if the last wait does not
fail. -/
theorem await_snd_of_received {capture : Bool}
    (h : received capture output interrupts = .ok received') :
    (await capture output interrupts 0).2 = interrupts.length + 1 := by
  cases capture with
  | false => rw [await_of_not_capture, Nat.zero_add]
  | true => rw [await_of_not_closed (received_eq_ok_iff.mp h).1, Nat.zero_add]

theorem waits_of_closed (h : .closed ∈ interrupts) (raw : Int) (output : List UInt8)
    (effects : List Effect) :
    (exits raw output interrupts effects).waits true = interrupts.idxOf .closed + 2 := by
  rw [waits, await_of_closed h, Nat.zero_add]

end Child

end Runbook
