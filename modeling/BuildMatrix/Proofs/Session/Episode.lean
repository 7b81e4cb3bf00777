import BuildMatrix.Session
import BuildMatrix.Proofs.Probe.Memo
import BuildMatrix.Proofs.Probe.Persistence

/-!
# Sessions on a build root

An *episode* is one session from its opening to its end, with work that checks flag
sets, as the verdicts lead it, and may fail in the end.  `Episode.perform` is the
session itself; `Episode.Runs` describes one in which everything was written, with a
record of what was checked.
-/

namespace BuildMatrix

/-! ## Opening a session -/

/-- What opening a session has come to. -/
structure Opened (o : Options) (settings : Settings) (w : World) (session : Session) (w' : World) :
    Prop where
  /-- The build root is where the options say. -/
  root : session.buildRoot = o.buildRoot settings
  /-- It was created, and nothing else was written. -/
  tree : Tree.ensureDirectory session.buildRoot w.tree = .ok () w'.tree
  /-- The cache was loaded, unless it was passed over. -/
  cache : session.cache =
    if o.noCache then Cache.empty session.toolchain.identity.cacheKey
    else (Cache.load w'.tree session.cachePath session.toolchain.identity.cacheKey).1

/-- The cache is that of the compiler. -/
theorem Opened.compiler {o : Options} {settings : Settings} {w w' : World} {session : Session}
    (opened : Opened o settings w session w') :
    session.cache.compiler = session.toolchain.identity.cacheKey := by
  rw [opened.cache]
  split
  · rfl
  · exact compiler_load _ _ _

theorem tree_of_detect {runner : Runner} {asked : Option String} {w w' : World} {tc : Toolchain}
    (h : World.detect runner asked w = .ok tc w') : w'.tree = w.tree := by
  unfold World.detect at h
  rw [Task.get_bind] at h
  generalize selectCompiler runner asked w.calls = selected at h
  obtain ⟨found, calls⟩ := selected
  obtain ⟨_, called, hset, h⟩ := Task.bind_eq_ok.1 h
  rw [← Task.set_eq_ok.1 hset] at h
  cases found with
  | error name => exact absurd h Task.throw_ne_ok
  | ok identity =>
    obtain ⟨_, told, htell, h⟩ := Task.bind_eq_ok.1 h
    rw [← (Task.pure_eq_ok.1 h).2, ← Task.modify_eq_ok.1 htell]

/-- A compiler whose name tells the family is found without a question. -/
theorem exists_detect {runner : Runner} {asked : Option String} {path : Path} {family : Family}
    (hfind : runner.find? (chooseName runner asked) = some path)
    (hfamily : familyOfName? (chooseName runner asked) = some family) (w : World) :
    ∃ found, World.detect runner asked w =
      .ok ⟨⟨family, chooseName runner asked, path⟩⟩ found := by
  have hselect : selectCompiler runner asked w.calls =
      (.ok ⟨family, chooseName runner asked, path⟩, w.calls) := by
    unfold selectCompiler
    dsimp only
    rw [hfind]
    dsimp only
    rw [classify, hfamily]
  unfold World.detect
  rw [Task.get_bind, hselect]
  exact ⟨_, rfl⟩

theorem startingCache_ok {noCache : Bool} {path : Path} {key : String} {w w' : World} {cache : Cache}
    (h : Session.startingCache noCache path key w = .ok cache w') :
    w'.tree = w.tree ∧
      cache = if noCache then Cache.empty key else (Cache.load w.tree path key).1 := by
  unfold Session.startingCache at h
  cases noCache with
  | true =>
    obtain ⟨_, told, htell, h⟩ := Task.bind_eq_ok.1 h
    obtain ⟨rfl, rfl⟩ := Task.pure_eq_ok.1 h
    rw [← Task.modify_eq_ok.1 htell]
    exact ⟨rfl, rfl⟩
  | false =>
    rw [if_neg Bool.false_ne_true, Task.get_bind] at h
    generalize Cache.load w.tree path key = loaded at h
    obtain ⟨loaded, told⟩ := loaded
    obtain ⟨_, u, htell, h⟩ := Task.bind_eq_ok.1 h
    obtain ⟨rfl, rfl⟩ := Task.pure_eq_ok.1 h
    rw [← Task.modify_eq_ok.1 htell, if_neg Bool.false_ne_true]
    exact ⟨rfl, rfl⟩

theorem opened_of_start {o : Options} {settings : Settings} {env : Environment} {runner : Runner}
    {w w' : World} {session : Session} (h : Session.start o settings env runner w = .ok session w') :
    Opened o settings w session w' := by
  unfold Session.start at h
  obtain ⟨tc, w₁, hdetect, h⟩ := Task.bind_eq_ok.1 h
  obtain ⟨_, w₂, hroot, h⟩ := Task.bind_eq_ok.1 h
  obtain ⟨tree, hensure, rfl⟩ := onTree_eq_ok.1 hroot
  obtain ⟨cache, w₃, hcache, h⟩ := Task.bind_eq_ok.1 h
  obtain ⟨rfl, rfl⟩ := Task.pure_eq_ok.1 h
  obtain ⟨htree, hcache⟩ := startingCache_ok hcache
  rw [tree_of_detect hdetect] at hensure
  exact ⟨rfl, by rw [htree]; exact hensure, by rw [htree]; exact hcache⟩

/-- A session is opened if the compiler is found and the build root can be created. -/
theorem exists_session {o : Options} {settings : Settings} {env : Environment} {runner : Runner}
    {w found : World} {tc : Toolchain} {t : Tree}
    (hdetect : World.detect runner (o.cc <|> env.cc) w = .ok tc found)
    (hroot : Tree.ensureDirectory (o.buildRoot settings) w.tree = .ok () t) :
    ∃ session opened, Session.start o settings env runner w = .ok session opened ∧
      session.toolchain = tc ∧ opened.tree = t ∧ opened.calls = found.calls := by
  rw [← tree_of_detect hdetect] at hroot
  have hensure : World.onTree (Tree.ensureDirectory (o.buildRoot settings)) found =
      .ok () { found with tree := t } := onTree_eq_ok.2 ⟨t, hroot, rfl⟩
  have hcache : ∃ cache opened, Session.startingCache o.noCache
      ((o.buildRoot settings).child cacheFileName) tc.identity.cacheKey { found with tree := t } =
        .ok cache opened ∧ opened.tree = t ∧ opened.calls = found.calls := by
    unfold Session.startingCache
    cases o.noCache with
    | true => exact ⟨_, _, rfl, rfl, rfl⟩
    | false => exact ⟨_, _, rfl, rfl, rfl⟩
  obtain ⟨cache, opened, hcache, htree, hcalls⟩ := hcache
  refine ⟨⟨tc, cache, o.buildRoot settings⟩, opened, ?_, rfl, htree, hcalls⟩
  unfold Session.start
  rw [Task.bind_of_ok hdetect, Task.bind_of_ok hensure, Task.bind_of_ok hcache]
  rfl

theorem saveCache_eq_ok {path : Path} {s s' : Probing} :
    Session.saveCache path s = .ok () s' ↔
      ∃ t, Tree.replaceText path s.cache.toFile.render s.world.tree = .ok () t ∧
        s' = { s with world := { s.world with tree := t } } := by
  unfold Session.saveCache
  rw [Task.get_bind, Probing.onWorld, Task.within_eq_ok]
  constructor
  · rintro ⟨w, hw, rfl⟩
    obtain ⟨t, ht, rfl⟩ := onTree_eq_ok.1 hw
    exact ⟨t, ht, rfl⟩
  · rintro ⟨t, ht, rfl⟩
    exact ⟨_, onTree_eq_ok.2 ⟨t, ht, rfl⟩, rfl⟩

/-! ## Episodes -/

/-- A session and what is done in it. -/
structure Episode where
  /-- What the run is asked to do. -/
  options : Options
  /-- The settings of the project. -/
  settings : Settings
  /-- The process environment. -/
  env : Environment
  /-- The way to the programs of the machine. -/
  runner : Runner
  /-- The checks that are made, as the verdicts lead, and whether the work fails after them. -/
  plan : Inquiry (Except Failure Unit)

namespace Episode

/-- The work in the session. -/
def work (e : Episode) (p : Prober) : Task Failure Probing Unit := do
  match ← p.carryOut e.plan with
  | .ok () => return
  | .error failure => throw failure

/-- The session from its opening to its end. -/
def perform (e : Episode) : Task Failure World Unit := do
  let session ← Session.start e.options e.settings e.env e.runner
  session.run e.runner e.work

end Episode

/-- What is told of a session afterwards. -/
structure Record where
  /-- The prober over the cache. -/
  prober : Prober
  /-- Whether the cache was passed over. -/
  noCache : Bool
  /-- The checks, in order. -/
  checks : List Check

/-- The cache key of the compiler. -/
def Record.key (r : Record) : String := r.prober.toolchain.identity.cacheKey

/-- The session runs and everything is written: it is opened, the checks are made, and the cache is
saved, also if the work fails. -/
inductive Episode.Runs (e : Episode) (w : World) : Record → Except Failure Unit → World → Prop
  | intro {session : Session} {opened : World} {checks : List Check}
      {result : Except Failure Unit} {s s' : Probing}
      (start : Session.start e.options e.settings e.env e.runner w = .ok session opened)
      (work : Carried (session.prober e.runner) e.plan { cache := session.cache, world := opened }
        checks result s)
      (save : Session.saveCache session.cachePath s = .ok () s') :
      Episode.Runs e w ⟨session.prober e.runner, e.options.noCache, checks⟩ result s'.world

namespace Episode

variable {e : Episode} {w w' : World} {r : Record}

theorem run_eq (session : Session) (runner : Runner) {α : Type}
    (work : Prober → Task Failure Probing α) (w : World) :
    session.run runner work w =
      match Task.ensuring (work (session.prober runner)) (Session.saveCache session.cachePath)
        { cache := session.cache, world := w } with
      | .ok value state => .ok value state.world
      | .error failure state => .error failure state.world := rfl

/-- A session whose work fails reports this failure and has tried to save the cache. -/
theorem run_of_failed {session : Session} {runner : Runner} {α : Type}
    {work : Prober → Task Failure Probing α} {w : World} {f : Failure} {s : Probing}
    (h : work (session.prober runner) { cache := session.cache, world := w } = .error f s) :
    session.run runner work w = .error f ((Session.saveCache session.cachePath).after s).world := by
  rw [run_eq, Task.ensuring_of_failed _ h]

/-- A session that runs does what a session does. -/
theorem perform_of_runs {result : Except Failure Unit} (h : e.Runs w r result w') :
    e.perform.outcome w = (result, w') := by
  cases h with
  | @intro session opened checks result s s' start work save =>
    have hcarry := carryOut_eq_ok_iff.2 ⟨checks, work⟩
    have hperform : e.perform w = session.run e.runner e.work opened := Task.bind_of_ok start
    rw [Task.outcome, hperform, run_eq]
    cases result with
    | ok _ =>
      have hwork : e.work (session.prober e.runner) { cache := session.cache, world := opened } =
          .ok () s := Task.bind_of_ok hcarry
      rw [Task.ensuring_of_ok hwork save]
    | error failure =>
      have hwork : e.work (session.prober e.runner) { cache := session.cache, world := opened } =
          .error failure s := Task.bind_of_ok hcarry
      rw [Task.ensuring_of_error hwork save]

/-- A session that succeeds runs. -/
theorem runs_of_perform (h : e.perform w = .ok () w') : ∃ r, e.Runs w r (.ok ()) w' := by
  obtain ⟨session, opened, hstart, h⟩ := Task.bind_eq_ok.1 h
  rw [run_eq] at h
  split at h
  · next u s' hensuring =>
    injection h with _ hworld
    obtain ⟨s, hwork, hsave⟩ := Task.ensuring_eq_ok.1 hensuring
    obtain ⟨result, s₁, hcarry, hresult⟩ := Task.bind_eq_ok.1 hwork
    obtain ⟨checks, hcarried⟩ := carryOut_eq_ok_iff.1 hcarry
    cases result with
    | error failure => exact absurd hresult Task.throw_ne_ok
    | ok _ =>
      have hs := (Task.pure_eq_ok.1 hresult).2
      subst hs
      rw [← hworld]
      exact ⟨_, .intro hstart hcarried hsave⟩
  · cases h

end Episode

end BuildMatrix
