/-!
# Tasks

A task works on a state and may fail.  What it did before it failed stays done:
a failure carries the state at that point.  Tasks that fail for other reasons or
work on a part of a larger state are brought together by `Task.within`.

`Task.ensuring` runs a second task after the first in any case, also after a
failure; of two failures the first is reported.
-/

namespace BuildMatrix

/-- Work on a state `σ` that gives an `α` or fails with an `ε`.  The state survives a failure. -/
abbrev Task (ε σ α : Type) := EStateM ε σ α

namespace Task

variable {ε δ σ τ α β : Type}

/-- A task on a part of a larger state, with its failures seen as failures of the larger work. -/
def within (part : τ → σ) (update : σ → τ → τ) (failure : ε → δ) (task : Task ε σ α) : Task δ τ α :=
  fun whole =>
    match task (part whole) with
    | .ok value state => .ok value (update state whole)
    | .error cause state => .error (failure cause) (update state whole)

/-- A step that cannot fail. -/
def step (f : σ → α × σ) : Task ε σ α := fun state => .ok (f state).1 (f state).2

/-- The first task, then the second in any case.  The second's failure counts only if the first
succeeded. -/
def ensuring (work : Task ε σ α) (after : Task ε σ Unit) : Task ε σ α := fun state =>
  match work state with
  | .ok value state =>
      match after state with
      | .ok _ state => .ok value state
      | .error cause state => .error cause state
  | .error cause state =>
      match after state with
      | .ok _ state => .error cause state
      | .error _ state => .error cause state

/-- The outcome of a task as a value, and the state it left. -/
def outcome (task : Task ε σ α) (state : σ) : Except ε α × σ :=
  match task state with
  | .ok value state => (.ok value, state)
  | .error cause state => (.error cause, state)

end Task

end BuildMatrix
