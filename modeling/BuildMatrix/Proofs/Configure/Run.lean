import BuildMatrix.Configure
import BuildMatrix.Proofs.Session.Episode

/-!
# Runs that succeed

A run that succeeds takes its steps one after the other: it opens a session, carries
out the plan of the variants, finds the sources that are there then, makes the graph
from them, and writes the build file, the list of targets and the cache.  `Ran` holds these
steps with their intermediate trees.  A run succeeds if and only if it can be taken
apart in this way (`configure_eq_ok_iff`).
-/

namespace BuildMatrix

variable {o : Options} {settings : Settings} {env : Environment} {host : Host} {runner : Runner}

/-! ## The files of a run -/

/-- The world after the build file and the list of targets were written. -/
def World.generated (w : World) (path : Path) (t : Tree) : World :=
  { w with tree := t, told := w.told ++ ["Generated " ++ path.text] }

theorem write_eq_ok {ninja help : Path} {build list : String} {w w' : World} :
    (do
      World.onTree (Tree.replaceText ninja build)
      World.tell ("Generated " ++ ninja.text)
      World.onTree (Tree.replaceText help list) : Task Failure World Unit) w = .ok () w' ↔
      ∃ t u, Tree.replaceText ninja build w.tree = .ok () t ∧
        Tree.replaceText help list t = .ok () u ∧ w' = w.generated ninja u := by
  constructor
  · intro h
    obtain ⟨_, w₁, hninja, h⟩ := Task.bind_eq_ok.1 h
    obtain ⟨t, ht, rfl⟩ := onTree_eq_ok.1 hninja
    obtain ⟨_, w₂, htell, h⟩ := Task.bind_eq_ok.1 h
    rw [← Task.modify_eq_ok.1 htell] at h
    obtain ⟨u, hu, rfl⟩ := onTree_eq_ok.1 h
    exact ⟨t, u, ht, hu, rfl⟩
  · rintro ⟨t, u, ht, hu, rfl⟩
    refine Task.bind_eq_ok.2 ⟨(), _, onTree_eq_ok.2 ⟨t, ht, rfl⟩, ?_⟩
    refine Task.bind_eq_ok.2 ⟨(), _, Task.modify_eq_ok.2 rfl, ?_⟩
    exact onTree_eq_ok.2 ⟨u, hu, rfl⟩

/-! ## The work of a run -/

/-- What a run reports. -/
def report (p : Prober) (variants : VariantSet) (sources : List Source) (s : Probing) : Configured where
  identity := p.toolchain.identity
  variants := variants.names
  sources := sources.length
  probes := s.invocations
  buildRoot := p.scratch

/-- The steps of the work within the session. -/
inductive Worked (o : Options) (settings : Settings) (env : Environment) (host : Host) (p : Prober)
    (s : Probing) : Configured → Probing → Prop
  | intro {checks : List Check} {baseline : Baseline} {variants : VariantSet} {planned : Probing}
      {sources : List Source} {graph : Graph} {t u : Tree}
      (plan : Carried p (planVariants p.toolchain p.exe settings env host) s checks
        (baseline, variants) planned)
      (found : findSources Tree.refusal? planned.world.tree o.projectRoot settings env.scanBuild =
        .ok sources)
      (emit : graphOf p.toolchain baseline settings (o.buildDirectory settings)
        (selectLauncher p.toolchain host env) variants sources = .ok graph)
      (ninja : Tree.replaceText (p.scratch.child ninjaFileName) (Ninja.render graph)
        planned.world.tree = .ok () t)
      (help : Tree.replaceText (p.scratch.child helpFileName) (renderHelp variants) t = .ok () u) :
      Worked o settings env host p s (report p variants sources planned)
        { planned with world := planned.world.generated (p.scratch.child ninjaFileName) u }

theorem configureWork_eq_ok_iff {p : Prober} {s s' : Probing} {made : Configured} :
    configureWork o settings env host p s = .ok made s' ↔
      Worked o settings env host p s made s' := by
  constructor
  · intro h
    unfold configureWork at h
    obtain ⟨⟨baseline, variants⟩, planned, hplan, h⟩ := Task.bind_eq_ok.1 h
    obtain ⟨checks, plan⟩ := carryOut_eq_ok_iff.1 hplan
    dsimp only at h
    rw [Task.get_bind] at h
    cases found : findSources Tree.refusal? planned.world.tree o.projectRoot settings
        env.scanBuild with
    | error failure =>
      rw [found] at h
      exact absurd h Task.throw_ne_ok
    | ok sources =>
    rw [found] at h
    dsimp only at h
    cases hemit : graphOf p.toolchain baseline settings (o.buildDirectory settings)
        (selectLauncher p.toolchain host env) variants sources with
    | error error =>
      rw [hemit] at h
      exact absurd h Task.throw_ne_ok
    | ok graph =>
      rw [hemit] at h
      dsimp only at h
      rw [Task.get_bind] at h
      obtain ⟨_, s₁, hwrite, h⟩ := Task.bind_eq_ok.1 h
      obtain ⟨rfl, rfl⟩ := Task.pure_eq_ok.1 h
      obtain ⟨w, hw, rfl⟩ := Task.within_eq_ok.1 hwrite
      obtain ⟨t, u, hninja, hhelp, rfl⟩ := write_eq_ok.1 hw
      exact .intro plan found hemit hninja hhelp
  · rintro ⟨plan, found, emit, ninja, help⟩
    unfold configureWork
    refine Task.bind_eq_ok.2 ⟨_, _, carryOut_eq_ok_iff.2 ⟨_, plan⟩, ?_⟩
    dsimp only
    rw [Task.get_bind, found]
    dsimp only
    rw [emit]
    dsimp only
    rw [Task.get_bind]
    refine Task.bind_eq_ok.2 ⟨(), _, ?_, Task.pure_eq_ok.2 ⟨rfl, rfl⟩⟩
    exact Task.within_eq_ok.2 ⟨_, write_eq_ok.2 ⟨_, _, ninja, help, rfl⟩, rfl⟩

/-! ## Runs -/

/-- The steps of a run. -/
inductive Ran (o : Options) (settings : Settings) (env : Environment) (host : Host) (runner : Runner)
    (w : World) : Configured → World → Prop
  | intro {session : Session} {opened : World} {made : Configured} {s : Probing} {t : Tree}
      (start : Session.start o settings env runner w = .ok session opened)
      (work : Worked o settings env host (session.prober runner)
        { cache := session.cache, world := opened } made s)
      (save : Tree.replaceText session.cachePath s.cache.toFile.render s.world.tree = .ok () t) :
      Ran o settings env host runner w made { s.world with tree := t }

/-- A run succeeds if and only if its steps do. -/
theorem configure_eq_ok_iff {w w' : World} {made : Configured} :
    configure o settings env host runner w = .ok made w' ↔
      Ran o settings env host runner w made w' := by
  constructor
  · intro h
    obtain ⟨session, opened, hstart, h⟩ := Task.bind_eq_ok.1 h
    rw [Episode.run_eq] at h
    split at h
    · next value s' hensuring =>
      injection h with hvalue hworld
      subst hvalue
      obtain ⟨s, hwork, hsave⟩ := Task.ensuring_eq_ok.1 hensuring
      obtain ⟨t, ht, rfl⟩ := saveCache_eq_ok.1 hsave
      rw [← hworld]
      exact .intro hstart (configureWork_eq_ok_iff.1 hwork) ht
    · cases h
  · rintro ⟨start, work, save⟩
    unfold configure
    rw [Task.bind_of_ok start, Episode.run_eq]
    have hsave := saveCache_eq_ok.2 ⟨_, save, rfl⟩
    rw [Task.ensuring_of_ok (configureWork_eq_ok_iff.2 work) hsave]

end BuildMatrix
