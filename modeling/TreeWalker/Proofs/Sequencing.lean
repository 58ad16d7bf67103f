/-!
# Sequences of computations on a state

How a sequence of two computations ends, from how its members do.  A failure of
the first is that of the sequence, with the state it was met in.
-/

namespace TreeWalker

variable {ε σ α β : Type} {run : EStateM ε σ α} {next : α → EStateM ε σ β} {state after : σ}

theorem bind_apply (run : EStateM ε σ α) (next : α → EStateM ε σ β) (state : σ) :
    (run >>= next) state =
      match run state with
      | .ok a after => next a after
      | .error failure after => .error failure after := by
  change EStateM.bind run next state = _
  unfold EStateM.bind
  cases run state <;> rfl

theorem bind_apply_ok {a : α} (first : run state = .ok a after) :
    (run >>= next) state = next a after := by
  rw [bind_apply, first]

theorem bind_apply_error {failure : ε} (first : run state = .error failure after) :
    (run >>= next) state = .error failure after := by
  rw [bind_apply, first]

theorem get_bind_apply (next : σ → EStateM ε σ β) (state : σ) :
    ((get : EStateM ε σ σ) >>= next) state = next state state :=
  rfl

/-- A sequence of two computations succeeds if both do. -/
theorem bind_eq_ok_iff {b : β} :
    (run >>= next) state = .ok b after ↔
      ∃ a middle, run state = .ok a middle ∧ next a middle = .ok b after := by
  rw [bind_apply]
  cases run state with
  | ok a middle =>
      constructor
      · intro second
        exact ⟨a, middle, rfl, second⟩
      · rintro ⟨a, middle, ⟨⟩, second⟩
        exact second
  | error failure middle => simp

/-- Two sequences end alike if their first members do, and then the others. -/
theorem bind_apply_congr {run' : EStateM ε σ α} {next' : α → EStateM ε σ β}
    (first : run state = run' state)
    (second : ∀ a after, run' state = .ok a after → next a after = next' a after) :
    (run >>= next) state = (run' >>= next') state := by
  rw [bind_apply, bind_apply, first]
  cases ends : run' state with
  | ok a after => exact second a after ends
  | error failure after => rfl

end TreeWalker
