/-! # Results in sequence

When two computations that may fail run one after the other, the whole succeeds if and only if both
do.
-/

namespace Except

variable {ε α β : Type}

theorem bind_eq_ok {result : Except ε α} {next : α → Except ε β} {y : β} :
    (result >>= next) = .ok y ↔ ∃ x, result = .ok x ∧ next x = .ok y := by
  cases result with
  | error e => simp [bind, Except.bind]
  | ok x => simp [bind, Except.bind]

theorem ok_bind (x : α) (next : α → Except ε β) : (.ok x >>= next) = next x := rfl

theorem map_eq_ok {result : Except ε α} {f : α → β} {y : β} :
    (f <$> result) = .ok y ↔ ∃ x, result = .ok x ∧ f x = y := by
  cases result with
  | error e => simp [Functor.map, Except.map]
  | ok x => simp [Functor.map, Except.map]

theorem map_eq_error {result : Except ε α} {f : α → β} {e : ε} :
    (f <$> result) = .error e ↔ result = .error e := by
  cases result with
  | error e => simp [Functor.map, Except.map]
  | ok x => simp [Functor.map, Except.map]

theorem mapError_eq_ok {ε' : Type} {result : Except ε α} {f : ε → ε'} {x : α} :
    result.mapError f = .ok x ↔ result = .ok x := by
  cases result with
  | error e => exact ⟨nofun, nofun⟩
  | ok y =>
    constructor <;> intro same <;> cases same <;> rfl

end Except
