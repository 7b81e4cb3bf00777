import BuildMatrix.Task

/-!
# Taking tasks apart

What a task that succeeded has done, step by step, and where one that failed has
failed.  A task is said to fail for some causes only (`FailsOnly`) if all its steps do.
What it leaves is `Task.after`, whether or not it failed.
-/

namespace BuildMatrix.Task

variable {ε δ σ τ α β : Type} {s s' : σ}

/-! ## Succeeding -/

theorem bind_eq_ok {x : Task ε σ α} {f : α → Task ε σ β} {b : β} :
    (x >>= f) s = .ok b s' ↔ ∃ a u, x s = .ok a u ∧ f a u = .ok b s' := by
  show EStateM.bind x f s = .ok b s' ↔ _
  unfold EStateM.bind
  cases x s with
  | ok a u =>
    constructor
    · intro h
      exact ⟨a, u, rfl, h⟩
    · rintro ⟨_, _, ⟨⟩, h⟩
      exact h
  | error e u =>
    constructor
    · intro h
      cases h
    · rintro ⟨_, _, ⟨⟩, _⟩

theorem get_bind (f : σ → Task ε σ β) (s : σ) : (get >>= f) s = f s s := rfl

theorem pure_eq_ok {a b : α} : (pure a : Task ε σ α) s = .ok b s' ↔ a = b ∧ s = s' := by
  constructor
  · intro h
    injection h with ha hs
    exact ⟨ha, hs⟩
  · rintro ⟨rfl, rfl⟩
    rfl

theorem set_eq_ok {u : σ} {b : PUnit} : (set u : Task ε σ PUnit) s = .ok b s' ↔ u = s' := by
  constructor
  · intro h
    injection h
  · rintro rfl
    rfl

theorem modify_eq_ok {f : σ → σ} {b : PUnit} :
    (modify f : Task ε σ PUnit) s = .ok b s' ↔ f s = s' := by
  constructor
  · intro h
    injection h
  · rintro rfl
    rfl

theorem throw_ne_ok {e : ε} {b : β} : (throw e : Task ε σ β) s ≠ .ok b s' := fun h => by cases h

theorem step_eq_ok {f : σ → α × σ} {a : α} :
    (step f : Task ε σ α) s = .ok a s' ↔ f s = (a, s') := by
  constructor
  · intro h
    injection h with ha hs
    rw [← ha, ← hs]
  · intro h
    show EStateM.Result.ok (f s).1 (f s).2 = _
    rw [h]

theorem within_eq_ok {part : τ → σ} {update : σ → τ → τ} {failure : ε → δ} {task : Task ε σ α}
    {w w' : τ} {a : α} :
    within part update failure task w = .ok a w' ↔
      ∃ u, task (part w) = .ok a u ∧ w' = update u w := by
  unfold within
  cases task (part w) with
  | ok b u =>
    constructor
    · intro h
      injection h with hb hu
      exact ⟨u, by rw [hb], hu.symm⟩
    · rintro ⟨_, ⟨⟩, rfl⟩
      rfl
  | error e u =>
    constructor
    · intro h
      cases h
    · rintro ⟨_, ⟨⟩, _⟩

/-! ## Going on -/

theorem bind_of_ok {x : Task ε σ α} {f : α → Task ε σ β} {a : α} {u : σ} (h : x s = .ok a u) :
    (x >>= f) s = f a u := by
  show EStateM.bind x f s = f a u
  unfold EStateM.bind
  rw [h]

theorem ensuring_of_ok {work : Task ε σ α} {after : Task ε σ Unit} {a : α} {u u' : σ}
    (h : work s = .ok a u) (h' : after u = .ok () u') : ensuring work after s = .ok a u' := by
  unfold ensuring
  rw [h]
  dsimp only
  rw [h']

theorem ensuring_eq_ok {work : Task ε σ α} {after : Task ε σ Unit} {a : α} :
    ensuring work after s = .ok a s' ↔ ∃ u, work s = .ok a u ∧ after u = .ok () s' := by
  constructor
  · intro h
    unfold ensuring at h
    cases hwork : work s with
    | ok b u =>
      rw [hwork] at h
      dsimp only at h
      cases hafter : after u with
      | ok _ u' =>
        rw [hafter] at h
        injection h with hb hu
        exact ⟨u, by rw [hb], by rw [hafter, hu]⟩
      | error e u' =>
        rw [hafter] at h
        cases h
    | error e u =>
      rw [hwork] at h
      dsimp only at h
      cases hafter : after u with
      | ok _ u' =>
        rw [hafter] at h
        cases h
      | error e' u' =>
        rw [hafter] at h
        cases h
  · rintro ⟨u, hwork, hafter⟩
    exact ensuring_of_ok hwork hafter

/-! ## Failing -/

theorem bind_eq_error {x : Task ε σ α} {f : α → Task ε σ β} {e : ε} :
    (x >>= f) s = .error e s' ↔
      x s = .error e s' ∨ ∃ a u, x s = .ok a u ∧ f a u = .error e s' := by
  show EStateM.bind x f s = .error e s' ↔ _
  unfold EStateM.bind
  cases x s with
  | ok a u =>
    constructor
    · intro h
      exact .inr ⟨a, u, rfl, h⟩
    · rintro (⟨⟨⟩⟩ | ⟨_, _, ⟨⟩, h⟩)
      exact h
  | error d u =>
    refine ⟨fun h => .inl (by simpa using h), ?_⟩
    rintro (h | ⟨_, _, ⟨⟩, _⟩)
    simpa using h

/-- Some work or what follows has failed. -/
theorem cases_of_ensuring_eq_error {work : Task ε σ α} {after : Task ε σ Unit} {e : ε}
    (h : ensuring work after s = .error e s') :
    (∃ u, work s = .error e u) ∨ ∃ u, after u = .error e s' := by
  unfold ensuring at h
  cases hwork : work s with
  | ok a u =>
    rw [hwork] at h
    dsimp only at h
    cases hafter : after u with
    | ok _ u' =>
      rw [hafter] at h
      cases h
    | error d u' =>
      rw [hafter] at h
      injection h with hd hu
      exact .inr ⟨u, by rw [hafter, hd, hu]⟩
  | error d u =>
    rw [hwork] at h
    dsimp only at h
    cases hafter : after u with
    | ok _ u' =>
      rw [hafter] at h
      injection h with hd _
      exact .inl ⟨u, by rw [hd]⟩
    | error _ u' =>
      rw [hafter] at h
      injection h with hd _
      exact .inl ⟨u, by rw [hd]⟩

/-- A task fails for causes of a kind only. -/
def FailsOnly (kind : ε → Prop) (task : Task ε σ α) : Prop :=
  ∀ s e s', task s = .error e s' → kind e

namespace FailsOnly

variable {kind : ε → Prop}

/-- A task that never fails. -/
theorem of_ok {task : Task ε σ α} (h : ∀ s, ∃ a u, task s = .ok a u) : FailsOnly kind task := by
  intro s e s' hfail
  obtain ⟨a, u, hok⟩ := h s
  rw [hok] at hfail
  cases hfail

theorem of_pure (a : α) : FailsOnly kind (pure a : Task ε σ α) := of_ok fun s => ⟨a, s, rfl⟩

theorem of_get : FailsOnly kind (get : Task ε σ σ) := of_ok fun s => ⟨s, s, rfl⟩

theorem of_modify (f : σ → σ) : FailsOnly kind (modify f : Task ε σ PUnit) :=
  of_ok fun s => ⟨⟨⟩, f s, rfl⟩

theorem bind {x : Task ε σ α} {f : α → Task ε σ β} (hx : FailsOnly kind x)
    (hf : ∀ a, FailsOnly kind (f a)) : FailsOnly kind (x >>= f) := by
  intro s e s' hfail
  rcases bind_eq_error.1 hfail with h | ⟨a, u, -, h⟩
  · exact hx s e s' h
  · exact hf a u e s' h

/-- A task on a part fails for its own causes, seen as failures of the whole. -/
theorem of_within {kind : δ → Prop} {part : τ → σ} {update : σ → τ → τ} {failure : ε → δ}
    {task : Task ε σ α} (h : FailsOnly (fun e => kind (failure e)) task) :
    FailsOnly kind (within part update failure task) := by
  intro w d w' hfail
  unfold within at hfail
  split at hfail
  · cases hfail
  · next e u htask =>
    injection hfail with hd _
    rw [← hd]
    exact h _ e u htask

end FailsOnly

/-! ## What is left -/

/-- The state that a task leaves, also if it fails. -/
def after (task : Task ε σ α) (s : σ) : σ := (task.outcome s).2

theorem after_of_ok {task : Task ε σ α} {a : α} (h : task s = .ok a s') : task.after s = s' := by
  simp [after, outcome, h]

theorem after_of_error {task : Task ε σ α} {e : ε} (h : task s = .error e s') :
    task.after s = s' := by
  simp [after, outcome, h]

theorem after_get_bind (f : σ → Task ε σ β) (s : σ) : (get >>= f).after s = (f s).after s := rfl

theorem after_bind_of_ok {x : Task ε σ α} {f : α → Task ε σ β} {a : α} {u : σ} (h : x s = .ok a u) :
    (x >>= f).after s = (f a).after u := by
  simp only [after, outcome, bind_of_ok h]

theorem after_within {part : τ → σ} {update : σ → τ → τ} {failure : ε → δ} {task : Task ε σ α}
    {w : τ} :
    (within part update failure task).after w = update (task.after (part w)) w := by
  unfold after outcome within
  cases task (part w) <;> rfl

/-- What relates a state to those that the steps of a task leave relates it to what the task
leaves. -/
theorem after_bind {R : σ → σ → Prop} (trans : ∀ {s t u}, R s t → R t u → R s u)
    {x : Task ε σ α} {f : α → Task ε σ β} (hx : R s (x.after s))
    (hf : ∀ a u, x s = .ok a u → R u ((f a).after u)) : R s ((x >>= f).after s) := by
  cases h : x s with
  | ok a u =>
    rw [after_of_ok h] at hx
    rw [after_bind_of_ok h]
    exact trans hx (hf a u h)
  | error e u =>
    rw [after_of_error h] at hx
    rwa [after_of_error (bind_eq_error.2 (.inl h))]

/-- The failure of some work is reported, however what follows ends. -/
theorem ensuring_of_failed {work : Task ε σ α} (later : Task ε σ Unit) {e : ε} {u : σ}
    (h : work s = .error e u) : ensuring work later s = .error e (later.after u) := by
  unfold ensuring after outcome
  rw [h]
  dsimp only
  cases later u with
  | ok _ u' => rfl
  | error _ u' => rfl

theorem ensuring_of_error {work : Task ε σ α} {later : Task ε σ Unit} {e : ε} {u u' : σ}
    (h : work s = .error e u) (h' : later u = .ok () u') :
    ensuring work later s = .error e u' := by
  rw [ensuring_of_failed later h, after_of_ok h']

end BuildMatrix.Task
