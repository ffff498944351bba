/-! # Machines

A machine goes through steps that change its state.  A step ends with a result or with an error, or
it has no outcome: because it looks at what is not there, or because one of its loops goes round
more often than it may.  To show that a machine comes to an end is to show that it has an outcome
where its loops may go round often enough.
-/

namespace StudioScript

/-- The steps of a machine with states `σ` and errors `ε`. -/
abbrev Machine (ε σ : Type) := ExceptT ε (StateT σ Option)

namespace Machine

variable {ε σ α β : Type}

/-- A step that has no outcome. -/
def stuck : Machine ε σ α := fun _ => none

theorem bind_apply (step : Machine ε σ α) (next : α → Machine ε σ β) (s : σ) :
    (step >>= next) s =
      match step s with
      | some (.ok x, s') => next x s'
      | some (.error e, s') => some (.error e, s')
      | none => none := by
  simp only [bind, ExceptT.bind, ExceptT.mk, StateT.bind]
  rcases step s with _ | ⟨_ | x, s'⟩ <;> rfl

theorem bind_of_ok {step : Machine ε σ α} {next : α → Machine ε σ β} {x : α} {s s' : σ}
    (ran : step s = some (.ok x, s')) : (step >>= next) s = next x s' := by
  rw [bind_apply, ran]

theorem bind_of_error {step : Machine ε σ α} {next : α → Machine ε σ β} {e : ε} {s s' : σ}
    (ran : step s = some (.error e, s')) : (step >>= next) s = some (.error e, s') := by
  rw [bind_apply, ran]

theorem pure_apply (x : α) (s : σ) : (pure x : Machine ε σ α) s = some (.ok x, s) := rfl

theorem get_apply (s : σ) : (get : Machine ε σ σ) s = some (.ok s, s) := rfl

theorem modify_apply (f : σ → σ) (s : σ) :
    (modify f : Machine ε σ PUnit) s = some (.ok ⟨⟩, f s) := rfl

end Machine

end StudioScript
