import Runbook.CommandLine

/-!
# Steps and what they leave alone

A step of a run answers, fails, or leaves the run. In each case there is a machine behind it, and
what a step did before it failed stays done. `Steps.final` is that machine, whichever way out was
taken, so that a statement about it is a statement about every run and not only about those that
get to their end.

The first half opens a sequence of two steps by the way out of the first. Later proofs use these
equations and never look inside the monads.

## The frame rule

Most parts of a machine are touched by few steps. A part is a function on machines, and `Keeps`
says that a step leaves it as it is. It is proved for a single step from what the step does not
look like an update of, and for a sequence by `Keeps.bind`, with nothing to prove about the answers
that are handed on.
-/

namespace Runbook

variable {α β γ : Type}

/-- The machine behind a computation, whether it gets to its end or is left by an escape. -/
def Steps.final (x : Steps α) (m : Machine) : Machine :=
  match x m with
  | .ok _ n => n
  | .error _ n => n

theorem Steps.final_of_ok {x : Steps α} {m n : Machine} {a : α} (h : x m = .ok a n) :
    Steps.final x m = n := by
  rw [Steps.final, h]

theorem Steps.eq_final_of_ok {x : Steps α} {m n : Machine} {a : α} (h : x m = .ok a n) :
    x m = .ok a (Steps.final x m) := by
  rw [Steps.final_of_ok h, h]

theorem Steps.final_of_error {x : Steps α} {m n : Machine} {e : Escape} (h : x m = .error e n) :
    Steps.final x m = n := by
  rw [Steps.final, h]

/-! ## Sequences -/

theorem Steps.bind_apply (x : Steps α) (f : α → Steps β) (m : Machine) :
    (x >>= f) m = match x m with
      | .ok a n => f a n
      | .error e n => .error e n := by
  show EStateM.bind x f m = _
  rw [EStateM.bind.eq_def]
  cases x m <;> rfl

theorem Run.bind_apply (x : Run α) (f : α → Run β) (m : Machine) :
    (x >>= f) m = match x m with
      | .ok (.ok a) n => f a n
      | .ok (.error failure) n => .ok (.error failure) n
      | .error e n => .error e n := by
  refine (Steps.bind_apply x _ m).trans ?_
  rcases x m with ⟨_ | _, _⟩ | _ <;> rfl

theorem Run.lift_apply (x : Steps α) (m : Machine) :
    (liftM x : Run α) m = match x m with
      | .ok a n => .ok (.ok a) n
      | .error e n => .error e n := by
  refine (Steps.bind_apply x _ m).trans ?_
  cases x m <;> rfl

theorem Run.discard_bind (x : Run α) (f : Unit → Run β) :
    (discard x >>= f) = x >>= fun _ ↦ f () := by
  rw [discard, map_const, Function.comp, bind_map_left]

section Bind

variable {x : Run α} {f : α → Run β} {m n : Machine}

/-- A sequence that is not left fails in its first step, or ends as its second step does after an
answer of the first. -/
theorem Run.bind_eq_ok_iff {r : Except Failure β} :
    (x >>= f) m = .ok r n ↔
      (∃ failure, r = .error failure ∧ x m = .ok (.error failure) n) ∨
        ∃ a k, x m = .ok (.ok a) k ∧ f a k = .ok r n := by
  rw [Run.bind_apply]
  -- One case for each way out of the first step: it fails, it answers, it is left.
  rcases x m with ⟨failure | a, k⟩ | ⟨e, k⟩
  · constructor
    · rintro ⟨⟩
      exact .inl ⟨failure, rfl, rfl⟩
    · rintro (⟨_, rfl, h⟩ | ⟨_, _, h, -⟩) <;> cases h
      rfl
  · constructor
    · intro h
      exact .inr ⟨a, k, rfl, h⟩
    · rintro (⟨_, -, h⟩ | ⟨_, _, h, hf⟩) <;> cases h
      exact hf
  · constructor
    · rintro ⟨⟩
    · rintro (⟨_, -, h⟩ | ⟨_, _, h, -⟩) <;> cases h

theorem Run.bind_eq_answer_iff {b : β} :
    (x >>= f) m = .ok (.ok b) n ↔ ∃ a k, x m = .ok (.ok a) k ∧ f a k = .ok (.ok b) n := by
  rw [Run.bind_eq_ok_iff]
  refine ⟨?_, .inr⟩
  rintro (⟨_, ⟨⟩, -⟩ | h)
  exact h

theorem Run.bind_eq_failure_iff {failure : Failure} :
    (x >>= f) m = .ok (.error failure) n ↔
      x m = .ok (.error failure) n ∨
        ∃ a k, x m = .ok (.ok a) k ∧ f a k = .ok (.error failure) n := by
  rw [Run.bind_eq_ok_iff]
  constructor
  · rintro (⟨_, ⟨rfl⟩, h⟩ | h)
    · exact .inl h
    · exact .inr h
  · rintro (h | h)
    · exact .inl ⟨failure, rfl, h⟩
    · exact .inr h

end Bind

theorem Steps.bind_of_ok {x : Steps α} (f : α → Steps β) {m n : Machine} {a : α}
    (h : x m = .ok a n) : (x >>= f) m = f a n := by
  rw [Steps.bind_apply, h]

theorem Run.lift_eq_ok_iff {x : Steps α} {m n : Machine} {a : α} :
    (liftM x : Run α) m = .ok (.ok a) n ↔ x m = .ok a n := by
  rw [Run.lift_apply]
  rcases x m with ⟨b, k⟩ | ⟨e, k⟩
  · constructor
    · rintro ⟨⟩
      rfl
    · rintro ⟨⟩
      rfl
  · constructor
    · rintro ⟨⟩
    · rintro ⟨⟩

theorem Run.lift_ne_failure {x : Steps α} {m n : Machine} {failure : Failure} :
    (liftM x : Run α) m ≠ .ok (.error failure) n := by
  rw [Run.lift_apply]
  rcases x m with ⟨a, k⟩ | ⟨e, k⟩
  · rintro ⟨⟩
  · rintro ⟨⟩

/-! ## Keeping a part of the machine -/

/-- A computation leaves a part of the machine as it is, on every machine and every way out. -/
def Keeps (part : Machine → γ) (x : Steps α) : Prop :=
  ∀ m, part (Steps.final x m) = part m

namespace Keeps

variable {part : Machine → γ}

theorem pure (a : α) : Keeps part (Pure.pure a : Steps α) := fun _ ↦ rfl

theorem lift {x : Steps α} (hx : Keeps part x) : Keeps part (liftM x : Run α) := by
  intro m
  have hfinal : Steps.final (liftM x : Run α) m = Steps.final x m := by
    rw [Steps.final, Run.lift_apply, Steps.final]
    rcases x m with ⟨a, n⟩ | ⟨e, n⟩
    · rfl
    · rfl
  rw [hfinal]
  exact hx m

theorem final_bind {x : Steps α} {f : α → Steps β} (hf : ∀ a, Keeps part (f a)) (m : Machine) :
    part (Steps.final (x >>= f) m) = part (Steps.final x m) := by
  rw [Steps.final, Steps.bind_apply, Steps.final]
  rcases x m with ⟨a, n⟩ | ⟨e, n⟩
  · exact hf a n
  · rfl

theorem final_bindRun {x : Run α} {f : α → Run β} (hf : ∀ a, Keeps part (f a)) (m : Machine) :
    part (Steps.final (x >>= f : Run β) m) = part (Steps.final x m) := by
  rw [Steps.final, Run.bind_apply, Steps.final]
  rcases x m with ⟨failure | a, n⟩ | ⟨e, n⟩
  · rfl
  · exact hf a n
  · rfl

theorem bind {x : Steps α} {f : α → Steps β} (hx : Keeps part x) (hf : ∀ a, Keeps part (f a)) :
    Keeps part (x >>= f) :=
  fun m ↦ (final_bind hf m).trans (hx m)

theorem bindRun {x : Run α} {f : α → Run β} (hx : Keeps part x) (hf : ∀ a, Keeps part (f a)) :
    Keeps part (x >>= f : Run β) :=
  fun m ↦ (final_bindRun hf m).trans (hx m)

end Keeps

end Runbook
