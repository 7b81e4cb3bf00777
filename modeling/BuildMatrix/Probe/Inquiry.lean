import BuildMatrix.Flag

/-!
# Inquiries

A plan that depends on what a compiler accepts is an *inquiry*: a tree that
either is done or asks about a flag set and goes on according to the verdict.
The tree is all there is to it, so what a plan comes to depends on nothing but
verdicts.

The same inquiry can be evaluated in several ways.  `answer` evaluates it for a
given function of verdicts, `questions` lists what is asked on the way, and
`perform` carries it out in any monad that can ask.
-/

namespace BuildMatrix

/-- A plan that asks about flag sets. -/
inductive Inquiry (α : Type) where
  /-- The plan is made. -/
  | done (result : α)
  /-- Ask about a flag set and go on with the verdict. -/
  | ask (flags : FlagSet) (next : Bool → Inquiry α)

namespace Inquiry

variable {α β : Type}

/-- One inquiry after another. -/
def andThen : Inquiry α → (α → Inquiry β) → Inquiry β
  | .done result, f => f result
  | .ask flags next, f => .ask flags fun verdict => (next verdict).andThen f
termination_by structural inquiry => inquiry

instance : Monad Inquiry where
  pure := .done
  bind := andThen

/-- Ask about a flag set. -/
def check (flags : FlagSet) : Inquiry Bool := .ask flags .done

/-! ## Evaluation -/

/-- The result under given verdicts. -/
def answer (verdict : FlagSet → Bool) : Inquiry α → α
  | .done result => result
  | .ask flags next => answer verdict (next (verdict flags))
termination_by structural inquiry => inquiry

/-- The flag sets asked about under given verdicts, in order. -/
def questions (verdict : FlagSet → Bool) : Inquiry α → List FlagSet
  | .done _ => []
  | .ask flags next => flags :: questions verdict (next (verdict flags))
termination_by structural inquiry => inquiry

/-- The result where each question is put by an action. -/
def perform {m : Type → Type} [Monad m] (put : FlagSet → m Bool) : Inquiry α → m α
  | .done result => pure result
  | .ask flags next => put flags >>= fun verdict => perform put (next verdict)
termination_by structural inquiry => inquiry

section Laws

variable (verdict : FlagSet → Bool)

@[simp] theorem answer_pure (a : α) : (pure a : Inquiry α).answer verdict = a := rfl

@[simp] theorem answer_check (flags : FlagSet) : (check flags).answer verdict = verdict flags := rfl

@[simp] theorem answer_bind (i : Inquiry α) (f : α → Inquiry β) :
    (i >>= f).answer verdict = (f (i.answer verdict)).answer verdict := by
  induction i with
  | done => rfl
  | ask flags next ih => exact ih _

@[simp] theorem answer_ite (c : Prop) [Decidable c] (i j : Inquiry α) :
    (if c then i else j).answer verdict = if c then i.answer verdict else j.answer verdict := by
  split <;> rfl

@[simp] theorem questions_pure (a : α) : (pure a : Inquiry α).questions verdict = [] := rfl

@[simp] theorem questions_check (flags : FlagSet) :
    (check flags).questions verdict = [flags] := rfl

@[simp] theorem questions_bind (i : Inquiry α) (f : α → Inquiry β) :
    (i >>= f).questions verdict =
      i.questions verdict ++ (f (i.answer verdict)).questions verdict := by
  induction i with
  | done => rfl
  | ask flags next ih => exact congrArg (flags :: ·) (ih _)

end Laws

end Inquiry

end BuildMatrix
