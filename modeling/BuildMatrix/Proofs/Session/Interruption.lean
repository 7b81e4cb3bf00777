import BuildMatrix.Proofs.Session.Reloading
import BuildMatrix.Proofs.Tree.Interruption

/-!
# Sessions whose work fails

A session that cannot be opened for want of a compiler has touched no file
(`start_error`).

A prober fails only where the program for probing cannot be written, and it tries that
before the first command.  So an inquiry that fails has run nothing and learned nothing,
and what it has answered it knew before (`carryOut_error`).  Whether or not an inquiry
fails, the verdicts that it has obtained on the way are in the cache afterwards, with those
that were there before (`Obtained.get?`, `get?_after_carryOut`).
-/

namespace BuildMatrix

open BuildMatrix.Task (FailsOnly)
open BuildMatrix.Tree (Sprouts)

/-! ## Changes of the tree that fail -/

/-- The failure is that of a change of the tree. -/
def Failure.IsWrite (f : Failure) : Prop := ∃ failure, f = .write failure

theorem failsOnly_onTree {α : Type} (task : Task WriteFailure Tree α) :
    FailsOnly Failure.IsWrite (World.onTree task) :=
  .of_within fun _ failure _ _ => ⟨failure, rfl⟩

theorem failsOnly_saveCache (path : Path) : FailsOnly Failure.IsWrite (Session.saveCache path) :=
  .bind .of_get fun _ => .of_within (failsOnly_onTree _)

theorem onTree_eq_error {task : Task WriteFailure Tree Unit} {w w' : World} {f : Failure} :
    World.onTree task w = .error f w' ↔
      ∃ failure t, task w.tree = .error failure t ∧ f = .write failure ∧
        w' = { w with tree := t } := by
  unfold World.onTree Task.within
  cases htask : task w.tree with
  | ok a t =>
    refine iff_of_false (fun h => by cases h) ?_
    rintro ⟨_, _, ⟨⟩, -⟩
  | error failure t =>
    constructor
    · rintro ⟨⟩
      exact ⟨failure, t, rfl, rfl, rfl⟩
    · rintro ⟨_, _, ⟨⟩, rfl, rfl⟩
      rfl

theorem onWorld_eq_error {task : Task WriteFailure Tree Unit} {s s' : Probing} {f : Failure}
    (h : Probing.onWorld (World.onTree task) s = .error f s') :
    ∃ failure t, task s.world.tree = .error failure t ∧ f = .write failure ∧
      s' = { s with world := { s.world with tree := t } } := by
  unfold Probing.onWorld Task.within at h
  split at h
  · cases h
  · next f' w hw =>
    injection h with hf hs
    obtain ⟨failure, t, htask, hfailure, rfl⟩ := onTree_eq_error.1 hw
    exact ⟨failure, t, htask, hf.symm.trans hfailure, hs.symm⟩

/-- Saving a cache changes the tree as writing its file does, also if that fails. -/
theorem tree_after_saveCache (path : Path) (s : Probing) :
    ((Session.saveCache path).after s).world.tree = (s.cache.save path).after s.world.tree := by
  rw [Session.saveCache, Task.after_get_bind, Probing.onWorld, World.onTree, Task.after_within,
    Task.after_within]

/-! ## Sessions that are not opened -/

section Opening

variable {o : Options} {settings : Settings} {env : Environment} {runner : Runner} {w w' : World}
  {f : Failure}

theorem detect_error {asked : Option String} (h : World.detect runner asked w = .error f w') :
    (∃ name, f = .compilerNotFound name) ∧ w'.tree = w.tree := by
  rw [World.detect, Task.get_bind] at h
  generalize selectCompiler runner asked w.calls = selected at h
  obtain ⟨found, calls⟩ := selected
  rcases Task.bind_eq_error.1 h with hset | ⟨_, called, hset, h⟩
  · cases hset
  rw [← Task.set_eq_ok.1 hset] at h
  cases found with
  | error name =>
    cases h
    exact ⟨⟨name, rfl⟩, rfl⟩
  | ok identity => cases h

/-- A session is not opened if there is no compiler, and then no file was touched, or if its build
root cannot be created. -/
theorem start_error (h : Session.start o settings env runner w = .error f w') :
    (∃ name, f = .compilerNotFound name) ∧ w'.tree = w.tree ∨ f.IsWrite := by
  rw [Session.start] at h
  rcases Task.bind_eq_error.1 h with hdetect | ⟨tc, found, -, h⟩
  · exact .inl (detect_error hdetect)
  rcases Task.bind_eq_error.1 h with hroot | ⟨_, w₁, -, h⟩
  · exact .inr (failsOnly_onTree _ _ _ _ hroot)
  -- loading the cache never fails
  rcases Task.bind_eq_error.1 h with hcache | ⟨cache, w₂, -, h⟩
  · unfold Session.startingCache at hcache
    split at hcache
    · cases hcache
    · cases hcache
  · cases h

end Opening

/-! ## Inquiries that fail -/

section Probers

variable {p : Prober} {α : Type} {inquiry : Inquiry α} {s s' : Probing} {flags : FlagSet}
  {f : Failure}

/-- The prober fails since its program, which was not written before, cannot be written. -/
def Prober.Hindered (p : Prober) (s : Probing) (f : Failure) (s' : Probing) : Prop :=
  s.sourceWritten = false ∧ ∃ failure t,
    Tree.writeText p.source probeSource s.world.tree = .error failure t ∧ f = .write failure ∧
      s' = { s with world := { s.world with tree := t } }

theorem ensureSource_error (h : p.ensureSource s = .error f s') : p.Hindered s f s' := by
  rw [Prober.ensureSource, Task.get_bind] at h
  split at h
  · cases h
  · next hwritten =>
    rcases Task.bind_eq_error.1 h with hwrite | ⟨_, u, -, hmodify⟩
    · exact ⟨Bool.eq_false_iff.2 hwritten, onWorld_eq_error hwrite⟩
    · cases hmodify

/-- A check fails before anything was run. -/
theorem check_error (h : p.check flags s = .error f s') : p.Hindered s f s' := by
  rw [Prober.check, Task.get_bind] at h
  cases hget : s.cache.get? flags with
  | some verdict =>
    rw [hget] at h
    cases h
  | none =>
    rw [hget] at h
    rcases Task.bind_eq_error.1 h with hsource | ⟨_, u, -, hstep⟩
    · exact ensureSource_error hsource
    · cases hstep

/-- An inquiry that fails has run nothing and learned nothing: the first check that was not answered
from the cache has failed. -/
theorem carryOut_error (h : p.carryOut inquiry s = .error f s') : p.Hindered s f s' := by
  induction inquiry generalizing s with
  | done result => cases h
  | ask flags next ih =>
    rw [Prober.carryOut, perform_ask] at h
    rcases Task.bind_eq_error.1 h with hcheck | ⟨verdict, u, hcheck, hrest⟩
    · exact check_error hcheck
    have hindered := ih verdict hrest
    rcases check_cases hcheck with ⟨-, rfl⟩ | ⟨hnone, -⟩
    · exact hindered
    · -- the program was written for this check, so the rest cannot fail
      have hwritten := (check_writes hcheck hnone).1
      rw [hindered.1] at hwritten
      cases hwritten

theorem failsOnly_carryOut (p : Prober) (inquiry : Inquiry α) :
    FailsOnly Failure.IsWrite (p.carryOut inquiry) := by
  intro s f s' h
  obtain ⟨-, failure, t, -, hf, -⟩ := carryOut_error h
  exact ⟨failure, hf⟩

/-! ## Verdicts on the way -/

/-- A verdict that is given when an inquiry is carried out, though the inquiry may fail later. -/
inductive Obtained (p : Prober) {α : Type} : Inquiry α → Probing → FlagSet → Bool → Prop
  | now {flags : FlagSet} {next : Bool → Inquiry α} {s u : Probing} {verdict : Bool}
      (check : p.check flags s = .ok verdict u) : Obtained p (.ask flags next) s flags verdict
  | later {flags : FlagSet} {next : Bool → Inquiry α} {s u : Probing} {verdict : Bool}
      {other : FlagSet} {v : Bool} (check : p.check flags s = .ok verdict u)
      (rest : Obtained p (next verdict) u other v) : Obtained p (.ask flags next) s other v

theorem after_carryOut_ask {next : Bool → Inquiry α} {u : Probing} {verdict : Bool}
    (check : p.check flags s = .ok verdict u) :
    (p.carryOut (.ask flags next)).after s = (p.carryOut (next verdict)).after u := by
  rw [Prober.carryOut, perform_ask, Task.after_bind_of_ok check]
  rfl

/-- An inquiry is carried out, or it fails and has learned nothing. -/
theorem after_carryOut_cases (p : Prober) (inquiry : Inquiry α) (s : Probing) :
    (∃ checks result, Carried p inquiry s checks result ((p.carryOut inquiry).after s)) ∨
      ∃ f, p.Hindered s f ((p.carryOut inquiry).after s) := by
  cases h : p.carryOut inquiry s with
  | ok result u =>
    obtain ⟨checks, carried⟩ := carryOut_eq_ok_iff.1 h
    rw [Task.after_of_ok h]
    exact .inl ⟨checks, result, carried⟩
  | error f u =>
    rw [Task.after_of_error h]
    exact .inr ⟨f, carryOut_error h⟩

theorem Prober.Hindered.cache (hindered : p.Hindered s f s') : s'.cache = s.cache := by
  obtain ⟨-, failure, t, -, -, rfl⟩ := hindered
  rfl

theorem Prober.Hindered.sprouts (hindered : p.Hindered s f s') :
    ∃ names, Sprouts names s.world.tree s'.world.tree := by
  obtain ⟨-, failure, t, hwrite, -, rfl⟩ := hindered
  exact Tree.sprouts_of_writeText_error hwrite

theorem compiler_after_carryOut (p : Prober) (inquiry : Inquiry α) (s : Probing) :
    ((p.carryOut inquiry).after s).cache.compiler = s.cache.compiler := by
  rcases after_carryOut_cases p inquiry s with ⟨checks, result, carried⟩ | ⟨f, hindered⟩
  · exact carried.compiler
  · rw [hindered.cache]

theorem changes_after_carryOut (p : Prober) (inquiry : Inquiry α) (s : Probing) :
    Tree.Changes s.world.tree ((p.carryOut inquiry).after s).world.tree := by
  rcases after_carryOut_cases p inquiry s with ⟨checks, result, carried⟩ | ⟨f, hindered⟩
  · exact carried.changes
  · obtain ⟨names, sprouts⟩ := hindered.sprouts
    exact sprouts.grows.changes

/-- What is known before an inquiry is known after it, also if it fails. -/
theorem get?_after_carryOut {v : Bool} (h : s.cache.get? flags = some v) :
    ((p.carryOut inquiry).after s).cache.get? flags = some v := by
  rcases after_carryOut_cases p inquiry s with ⟨checks, result, carried⟩ | ⟨f, hindered⟩
  · exact carried.get? h
  · rwa [hindered.cache]

/-- So is every verdict that was given on the way. -/
theorem Obtained.get? {v : Bool} (obtained : Obtained p inquiry s flags v) :
    ((p.carryOut inquiry).after s).cache.get? flags = some v := by
  induction obtained with
  | now check =>
    rw [after_carryOut_ask check]
    exact get?_after_carryOut (get?_of_verdict check)
  | later check rest ih =>
    rw [after_carryOut_ask check]
    exact ih

/-- All checks of an inquiry that does not fail are such verdicts. -/
theorem Carried.obtained {checks : List Check} {result : α}
    (carried : Carried p inquiry s checks result s') :
    ∀ c ∈ checks, Obtained p inquiry s c.flags c.verdict := by
  induction carried with
  | done result s => exact fun c hc => by cases hc
  | ask check calls rest ih =>
    intro c hc
    rcases List.mem_cons.1 hc with rfl | hc
    · exact .now check
    · exact .later check (ih c hc)

/-! ## The tree after an inquiry -/

/-- With room and no link in the way, an inquiry leaves the program, or nothing. -/
theorem Room.after_carryOut {dir : Location} (room : Room p.scratch dir s.world.tree)
    (unlinked : ∀ target, s.world.tree.node? (dir ++ [sourceName]) ≠ some (.link target))
    (fresh : s.sourceWritten = false) (inquiry : Inquiry α) :
    Prepared dir s.world.tree ((p.carryOut inquiry).after s).world.tree := by
  rcases after_carryOut_cases p inquiry s with
    ⟨checks, result, carried⟩ | ⟨f, -, failure, t, hwrite, -, hafter⟩
  · rcases carried.same_or_written fresh with hsame | hwritten
    · exact .inl (congrArg (·.world.tree) hsame)
    · exact .inr (room.writeText_ok plain_sourceName (by decide) unlinked hwritten).2
  · rw [hafter]
    exact .inl (room.leads.writeText_error room.wf plain_sourceName hwrite)

/-- Where there is no directory for the program, an inquiry writes no file. -/
theorem sprouts_after_carryOut (there : p.scratch.text = "" ∨ s.world.tree.reaches p.scratch = true)
    (nowhere : ∀ dir, ¬ s.world.tree.LeadsTo p.scratch dir) (fresh : s.sourceWritten = false)
    (inquiry : Inquiry α) :
    ∃ names, Sprouts names s.world.tree ((p.carryOut inquiry).after s).world.tree := by
  rcases after_carryOut_cases p inquiry s with ⟨checks, result, carried⟩ | ⟨f, hindered⟩
  · rcases carried.same_or_written fresh with hsame | hwritten
    · rw [hsame]
      exact ⟨[], .refl _ _⟩
    · obtain ⟨dir, leads⟩ := Tree.exists_leadsTo there plain_sourceName (by decide) hwritten
      exact absurd leads (nowhere dir)
  · exact hindered.sprouts

end Probers

end BuildMatrix
