import BuildMatrix.Proofs.Configure.Consistency
import BuildMatrix.Proofs.Session.History
import BuildMatrix.Proofs.Session.Interruption

/-!
# Runs that fail before their files are written

A run without a compiler leaves the tree alone.  A run that has opened its session may
still fail before it writes a file of its own: the program for probing cannot be written,
the sources cannot be found, or they make no graph (`graphWork_error`).  The build file and
the list of targets are left alone then, and so is everything else but the program and the
cache (`Spared`).  The cache is saved all the same.  If that succeeds, all verdicts that
the run has found in it or has obtained are there for the next run, and if it fails as
well, the first failure is still the one reported (`configure_spares`).

The commands that are run have no part in this, since a `Runner` answers and writes no
files.  Links have: the program is written through a link at its name, wherever that
leads, and a path that goes through a link at the name of the cache is cut off when the
cache is saved.  So no link may stand in the build root (`Unlinked`).

In a tree a search for sources fails only where a path is too long.  A real one may be
refused a directory or a file for other reasons, so the work is considered with any way to
find the sources (`Finder`), of which nothing is asked.
-/

namespace BuildMatrix

open BuildMatrix.Task (FailsOnly)

/-! ## The work in two parts -/

/-- A way to find the sources of a project, which may give up. -/
abbrev Finder := Tree → Except SearchFailure (List Source)

/-- The work of a run up to its graph. -/
def graphWork (find : Finder) (o : Options) (settings : Settings) (env : Environment) (host : Host)
    (p : Prober) : Task Failure Probing (VariantSet × List Source × Graph) := do
  let (baseline, variants) ← p.plan settings env host
  match find (← get).world.tree with
  | .error failure => throw (.search failure)
  | .ok sources =>
      match graphOf p.toolchain baseline settings (o.buildDirectory settings)
          (selectLauncher p.toolchain host env) variants sources with
      | .error error => throw (.inconsistent error)
      | .ok graph => return (variants, sources, graph)

/-- The work of a run from its graph on: the files are written. -/
def filesWork (p : Prober) : VariantSet × List Source × Graph → Task Failure Probing Configured
  | (variants, sources, graph) => do
      let made := report p variants sources (← get)
      Probing.onWorld do
        World.onTree (Tree.replaceText made.ninjaPath (Ninja.render graph))
        World.tell ("Generated " ++ made.ninjaPath.text)
        World.onTree (Tree.replaceText made.helpPath (renderHelp variants))
      return made

/-- Configure a project whose sources are found in a given way. -/
def configureBy (find : Finder) (o : Options) (settings : Settings) (env : Environment) (host : Host)
    (runner : Runner) : Task Failure World Configured := do
  let session ← Session.start o settings env runner
  session.run runner fun p => graphWork find o settings env host p >>= filesWork p

variable {find : Finder} {o : Options} {settings : Settings} {env : Environment} {host : Host}
  {runner : Runner}

theorem graphWork_of_plan (find : Finder) (o : Options) {p : Prober} {s planned : Probing}
    {baseline : Baseline} {variants : VariantSet} {sources : List Source}
    (plan : p.plan settings env host s = .ok (baseline, variants) planned)
    (hfind : find planned.world.tree = .ok sources) :
    graphWork find o settings env host p s =
      match graphOf p.toolchain baseline settings (o.buildDirectory settings)
        (selectLauncher p.toolchain host env) variants sources with
      | .error error => .error (.inconsistent error) planned
      | .ok graph => .ok (variants, sources, graph) planned := by
  rw [graphWork, Task.bind_of_ok plan]
  dsimp only
  rw [Task.get_bind, hfind]
  dsimp only
  cases graphOf p.toolchain baseline settings (o.buildDirectory settings)
      (selectLauncher p.toolchain host env) variants sources with
  | error error => rfl
  | ok graph => rfl

theorem graphWork_of_lost (o : Options) {p : Prober} {s planned : Probing} {baseline : Baseline}
    {variants : VariantSet} {failure : SearchFailure}
    (plan : p.plan settings env host s = .ok (baseline, variants) planned)
    (hfind : find planned.world.tree = .error failure) :
    graphWork find o settings env host p s = .error (.search failure) planned := by
  rw [graphWork, Task.bind_of_ok plan]
  dsimp only
  rw [Task.get_bind, hfind]
  rfl

/-- The two parts make up the work of a run. -/
theorem graphWork_bind_filesWork (p : Prober) :
    (graphWork (fun t => findSources Tree.refusal? t o.projectRoot settings env.scanBuild) o settings
      env host p >>= filesWork p) = configureWork o settings env host p := by
  funext s
  unfold configureWork
  cases hplan : p.plan settings env host s with
  | error f u =>
    have hgraph : graphWork (fun t => findSources Tree.refusal? t o.projectRoot settings
        env.scanBuild) o settings env host p s = .error f u := Task.bind_eq_error.2 (.inl hplan)
    exact (Task.bind_eq_error.2 (.inl hgraph)).trans (Task.bind_eq_error.2 (.inl hplan)).symm
  | ok made planned =>
    obtain ⟨baseline, variants⟩ := made
    refine Eq.trans ?_ (Task.bind_of_ok hplan).symm
    dsimp only
    rw [Task.get_bind]
    cases hfind : findSources Tree.refusal? planned.world.tree o.projectRoot settings
        env.scanBuild with
    | error failure =>
      exact Task.bind_eq_error.2 (.inl (graphWork_of_lost o hplan hfind))
    | ok sources =>
    have hgraph := graphWork_of_plan
      (fun t => findSources Tree.refusal? t o.projectRoot settings env.scanBuild) o hplan hfind
    dsimp only
    cases hemit : graphOf p.toolchain baseline settings (o.buildDirectory settings)
        (selectLauncher p.toolchain host env) variants sources with
    | error error =>
      rw [hemit] at hgraph
      exact Task.bind_eq_error.2 (.inl hgraph)
    | ok graph =>
      rw [hemit] at hgraph
      rw [Task.bind_of_ok hgraph]
      rfl

theorem configureBy_findSources :
    configureBy (fun t => findSources Tree.refusal? t o.projectRoot settings env.scanBuild) o settings
      env host runner = configure o settings env host runner := by
  simp only [configureBy, graphWork_bind_filesWork, configure]

/-- The work up to the graph fails in three ways: the program for probing cannot be written, the
sources cannot be found, or they make no graph.  It leaves what finding out the variants has left. -/
theorem graphWork_error {p : Prober} {s s' : Probing} {f : Failure}
    (h : graphWork find o settings env host p s = .error f s') :
    s' = (p.plan settings env host).after s ∧
      (p.Hindered s f s' ∨
        (∃ failure, find s'.world.tree = .error failure ∧ f = .search failure) ∨
        ∃ error, f = .inconsistent error) := by
  rw [graphWork] at h
  rcases Task.bind_eq_error.1 h with hplan | ⟨⟨baseline, variants⟩, planned, hplan, h⟩
  · exact ⟨(Task.after_of_error hplan).symm, .inl (carryOut_error hplan)⟩
  rw [Task.after_of_ok hplan]
  dsimp only at h
  rw [Task.get_bind] at h
  cases hfind : find planned.world.tree with
  | error failure =>
    rw [hfind] at h
    cases h
    exact ⟨rfl, .inr (.inl ⟨failure, hfind, rfl⟩)⟩
  | ok sources =>
    rw [hfind] at h
    dsimp only at h
    cases hemit : graphOf p.toolchain baseline settings (o.buildDirectory settings)
        (selectLauncher p.toolchain host env) variants sources with
    | error error =>
      rw [hemit] at h
      cases h
      exact ⟨rfl, .inr (.inr ⟨error, rfl⟩)⟩
    | ok graph =>
      rw [hemit] at h
      cases h

theorem failsOnly_filesWork (p : Prober) (made : VariantSet × List Source × Graph) :
    FailsOnly Failure.IsWrite (filesWork p made) :=
  .bind .of_get fun _ => .bind (.of_within (failsOnly_write _ _ _ _)) fun _ => .of_pure _

/-- A run whose work fails before the graph is there reports this failure and has tried to save the
cache. -/
theorem configureBy_of_error {w opened : World} {session : Session} {f : Failure} {s : Probing}
    (start : Session.start o settings env runner w = .ok session opened)
    (stopped : graphWork find o settings env host (session.prober runner)
      { cache := session.cache, world := opened } = .error f s) :
    configureBy find o settings env host runner w =
      .error f ((Session.saveCache session.cachePath).after s).world := by
  have hwork : (graphWork find o settings env host (session.prober runner) >>=
      filesWork (session.prober runner)) { cache := session.cache, world := opened } =
        .error f s := Task.bind_eq_error.2 (.inl stopped)
  exact (Task.bind_of_ok start).trans (Episode.run_of_failed hwork)

/-! ## The tree -/

/-- The bytes of the file at a location, if there is one. -/
def Tree.content? (t : Tree) (location : Location) : Option ByteArray :=
  match t.node? location with
  | some (.file content) => some content
  | _ => none

theorem Tree.content?_congr {t u : Tree} {location : Location}
    (h : u.node? location = t.node? location) : u.content? location = t.content? location := by
  simp [Tree.content?, h]

theorem Tree.Sprouts.content? {names : List String} {t u : Tree} (h : Tree.Sprouts names t u)
    (location : Location) : u.content? location = t.content? location := by
  rcases h.places location with hsame | ⟨⟨hbefore, hafter⟩, -⟩
  · exact Tree.content?_congr hsame
  · simp [Tree.content?, hbefore, hafter]

/-- No link stands in the build root, also if the build root has yet to be created. -/
def Unlinked (root : Path) (t : Tree) : Prop :=
  ∀ u dir, Tree.ensureDirectory root t = .ok () u → u.LeadsTo root dir →
    ∀ name target, t.node? (dir ++ [name]) ≠ some (.link target)

/-- What becomes of a tree in a run that writes the program and the cache at most, with the tree in
which the session was opened. -/
structure Spared (root : Path) (t opened u : Tree) : Prop where
  /-- Opening the session creates directories on the path of the build root. -/
  opening : Tree.Sprouts root.pieces t opened
  /-- If the build root is there, it creates nothing. -/
  there : root.text = "" ∨ t.reaches root = true → opened = t
  /-- Since then nothing has changed but the program and the cache. -/
  since : ∀ dir, opened.LeadsTo root dir → ∀ location, location ≠ dir ++ [sourceName] →
    location ≠ dir ++ [cacheFileName] → u.node? location = opened.node? location
  /-- All other files are what they were before, and there are no new ones. -/
  contents : ∀ location, (∀ dir, opened.LeadsTo root dir →
    location ≠ dir ++ [sourceName] ∧ location ≠ dir ++ [cacheFileName]) →
      u.content? location = t.content? location

section Sparing

variable {root : Path} {dir : Location} {t opened u : Tree}

/-- The generated files are neither the program nor the cache. -/
theorem Spared.generated (spared : Spared root t opened u) (leads : opened.LeadsTo root dir)
    {name : String} (h : name ∈ [ninjaFileName, helpFileName]) :
    u.node? (dir ++ [name]) = opened.node? (dir ++ [name]) ∧
      u.content? (dir ++ [name]) = t.content? (dir ++ [name]) ∧
        (name ∉ root.pieces → u.node? (dir ++ [name]) = t.node? (dir ++ [name])) := by
  have hnames : ∀ name ∈ [ninjaFileName, helpFileName], name ≠ sourceName ∧ name ≠ cacheFileName := by
    decide
  have hne : ∀ {other}, name ≠ other → dir ++ [name] ≠ dir ++ [other] := fun hname heq =>
    hname (List.cons.inj (List.append_inj' heq rfl).2).1
  obtain ⟨hsource, hcache⟩ := hnames name h
  have hsince := spared.since dir leads _ (hne hsource) (hne hcache)
  exact ⟨hsince, (Tree.content?_congr hsince).trans (spared.opening.content? _),
    fun hname => hsince.trans (spared.opening.node?_concat hname dir)⟩

variable {p : Prober} {s : Probing} {α : Type}

/-- The tree after a session in which an inquiry was carried out, or failed, and the cache was saved,
or could not be saved. -/
def Prober.leaves (p : Prober) (inquiry : Inquiry α) (s : Probing) : Tree :=
  ((Session.saveCache (p.scratch.child cacheFileName)).after
    ((p.carryOut inquiry).after s)).world.tree

/-- Where there is a directory and no link in the way, the session touches two files. -/
theorem Room.node?_leaves (room : Room p.scratch dir s.world.tree)
    (unlinked : ∀ target, s.world.tree.node? (dir ++ [sourceName]) ≠ some (.link target))
    (fresh : s.sourceWritten = false) (inquiry : Inquiry α) {location : Location}
    (hsource : location ≠ dir ++ [sourceName]) (hcache : location ≠ dir ++ [cacheFileName]) :
    (p.leaves inquiry s).node? location = s.world.tree.node? location := by
  have changes := changes_after_carryOut p inquiry s
  have room' : Room p.scratch dir ((p.carryOut inquiry).after s).world.tree :=
    ⟨changes.2 room.wf, room.leads.within changes.1.within⟩
  have hprogram : ((p.carryOut inquiry).after s).world.tree.node? location =
      s.world.tree.node? location := by
    rcases room.after_carryOut unlinked fresh inquiry with hsame | hput
    · rw [hsame]
    · rw [hput, Tree.node?_put_of_ne (List.concat_ne_nil _ _) _ hsource]
  rw [Prober.leaves, tree_after_saveCache, Cache.save, ← hprogram]
  rcases room'.after_replaceText plain_cacheFileName
      ((p.carryOut inquiry).after s).cache.toFile.render with hsame | hput
  · rw [hsame]
  · rw [hput, Tree.node?_put_of_ne (List.concat_ne_nil _ _) _ hcache]

/-- Where there is no directory, the session touches no file. -/
theorem content?_leaves (wf : s.world.tree.WellFormed)
    (there : p.scratch.text = "" ∨ s.world.tree.reaches p.scratch = true)
    (nowhere : ∀ dir, ¬ s.world.tree.LeadsTo p.scratch dir) (fresh : s.sourceWritten = false)
    (inquiry : Inquiry α) (location : Location) :
    (p.leaves inquiry s).content? location = s.world.tree.content? location := by
  have changes := changes_after_carryOut p inquiry s
  obtain ⟨names, program⟩ := sprouts_after_carryOut there nowhere fresh inquiry
  obtain ⟨names', cache⟩ := sprouts_after_replaceText (changes.2 wf)
    (there.imp_right changes.1.reaches) (fun dir leads => nowhere dir (leads.before changes.1 there))
    plain_cacheFileName ((p.carryOut inquiry).after s).cache.toFile.render
  rw [Prober.leaves, tree_after_saveCache]
  exact (cache.content? location).trans (program.content? location)

/-- A new session spares the tree, whether or not its inquiry fails and whether or not its cache can
be saved. -/
theorem spared_leaves (wf : t.WellFormed) (unlinked : Unlinked p.scratch t)
    (opening : Tree.ensureDirectory p.scratch t = .ok () s.world.tree)
    (fresh : s.sourceWritten = false) (inquiry : Inquiry α) :
    Spared p.scratch t s.world.tree (p.leaves inquiry s) := by
  have sprouts : Tree.Sprouts p.scratch.pieces t s.world.tree := by
    rw [← Task.after_of_ok opening]
    exact Tree.sprouts_ensureDirectory _ _
  have since : ∀ dir, s.world.tree.LeadsTo p.scratch dir → ∀ location,
      location ≠ dir ++ [sourceName] → location ≠ dir ++ [cacheFileName] →
        (p.leaves inquiry s).node? location = s.world.tree.node? location := by
    intro dir leads location hsource hcache
    have room : Room p.scratch dir s.world.tree := ⟨sprouts.wf wf, leads⟩
    refine room.node?_leaves (fun target hlink => ?_) fresh inquiry hsource hcache
    exact unlinked _ dir opening leads _ _ (sprouts.grows.1.links _ _ hlink)
  refine ⟨sprouts, fun there => ?_, since, fun location hlocation => ?_⟩
  · rw [Tree.ensureDirectory_of_reaches there] at opening
    injection opening with _ htree
    exact htree.symm
  · rw [← sprouts.content? location]
    by_cases hleads : ∃ dir, s.world.tree.LeadsTo p.scratch dir
    · obtain ⟨dir, leads⟩ := hleads
      obtain ⟨hsource, hcache⟩ := hlocation dir leads
      exact Tree.content?_congr (since dir leads location hsource hcache)
    · exact content?_leaves (sprouts.wf wf) (Tree.reaches_of_ensureDirectory opening)
        (not_exists.1 hleads) fresh inquiry location

end Sparing

/-! ## The cache -/

/-- If the cache can be saved after a new session, the next one loads what was known then. -/
theorem load_after_session {t : Tree} {p : Prober} {s saved : Probing} {α : Type}
    {inquiry : Inquiry α} (wf : t.WellFormed) (unlinked : Unlinked p.scratch t)
    (opening : Tree.ensureDirectory p.scratch t = .ok () s.world.tree)
    (hsingle : ((p.carryOut inquiry).after s).cache.get? [""] = none)
    (save : Session.saveCache (p.scratch.child cacheFileName) ((p.carryOut inquiry).after s) =
      .ok () saved) :
    (Cache.load saved.world.tree (p.scratch.child cacheFileName) s.cache.compiler).1 =
      ((p.carryOut inquiry).after s).cache := by
  have grows := Tree.grows_ensureDirectory opening
  have there := Tree.reaches_of_ensureDirectory opening
  have changes := changes_after_carryOut p inquiry s
  have wf' := changes.2 (grows.2 wf)
  obtain ⟨tree, hreplace, rfl⟩ := saveCache_eq_ok.1 save
  obtain ⟨dir, room⟩ := exists_room wf' (there.imp_right changes.1.reaches) plain_cacheFileName
    hreplace
  obtain ⟨writable, htree⟩ := (room.replaceText_iff plain_cacheFileName).1 hreplace
  -- no link stands at the name of the cache, so its path leads to what was saved
  have clear : Clear p.scratch dir ((p.carryOut inquiry).after s).world.tree cacheFileName :=
    ⟨writable, fun target hlink => unlinked _ dir opening (room.leads.before changes.1 there) _ _
      (grows.1.links _ _ (changes.1.links _ _ hlink))⟩
  have hreached : tree.reaches (p.scratch.child cacheFileName) = true := by
    rw [htree]
    exact clear.reaches_put room _
  rw [← compiler_after_carryOut p inquiry s]
  exact Cache.load_of_single hsingle wf' hreplace hreached

/-- After a session that has gone about the plan of the variants, the cache holds no verdict on the
set of one empty token. -/
theorem get?_single_after_plan {w opened : World} {session : Session}
    (start : Session.start o settings env runner w = .ok session opened) :
    (((session.prober runner).plan settings env host).after
      { cache := session.cache, world := opened }).cache.get? [""] = none := by
  cases hplan : (session.prober runner).plan settings env host
      { cache := session.cache, world := opened } with
  | ok made planned =>
    rw [Task.after_of_ok hplan]
    exact Cache.get?_single_of_plan start hplan
  | error f s =>
    rw [Task.after_of_error hplan, (carryOut_error hplan).cache]
    exact Cache.get?_single_of_start start

/-! ## Runs -/

/-- A run that fails for want of a compiler leaves the tree as it was. -/
theorem tree_of_compilerNotFound {w w' : World} {name : String}
    (h : configureBy find o settings env host runner w = .error (.compilerNotFound name) w') :
    w'.tree = w.tree := by
  rw [configureBy] at h
  rcases Task.bind_eq_error.1 h with hstart | ⟨session, opened, start, h⟩
  · rcases start_error hstart with ⟨-, htree⟩ | ⟨failure, ⟨⟩⟩
    exact htree
  -- once the session is opened, nothing fails in this way
  exfalso
  rw [Episode.run_eq] at h
  split at h
  · cases h
  next f s' hensuring =>
  injection h with hf _
  subst hf
  rcases Task.cases_of_ensuring_eq_error hensuring with ⟨u, hwork⟩ | ⟨u, hsave⟩
  · rcases Task.bind_eq_error.1 hwork with hgraph | ⟨made, planned, -, hfiles⟩
    · obtain ⟨-, ⟨-, failure, t, -, ⟨⟩, -⟩ | ⟨reason, -, ⟨⟩⟩ | ⟨error, ⟨⟩⟩⟩ := graphWork_error hgraph
    · obtain ⟨failure, ⟨⟩⟩ := failsOnly_filesWork _ _ _ _ _ hfiles
  · obtain ⟨failure, ⟨⟩⟩ := failsOnly_saveCache _ _ _ _ hsave

/-- A run that fails leaves the generated files alone and keeps the verdicts, however the sources are
found, and in particular as a run finds them.  Without a compiler nothing changes.  If the work fails
with the session open, before there is a graph to write, its failure is the one reported, also if the
cache cannot be saved.  The build file and the list of targets are then as they were when the session
was opened, with the contents that they had before, or none.  Only if the path of the build root goes
through one of their names, a directory of this name may be new.  If the cache is saved, every verdict
that was loaded or obtained before is loaded from it again. -/
theorem configure_spares (find : Finder) (o : Options) (settings : Settings) (env : Environment)
    (host : Host) (runner : Runner) (w : World) (wf : w.tree.WellFormed)
    (unlinked : Unlinked (o.buildRoot settings) w.tree) :
    configureBy (fun t => findSources Tree.refusal? t o.projectRoot settings env.scanBuild) o settings
        env host runner = configure o settings env host runner ∧
    (∀ name w', configureBy find o settings env host runner w = .error (.compilerNotFound name) w' →
      w'.tree = w.tree) ∧
    ∀ session opened f s, Session.start o settings env runner w = .ok session opened →
      graphWork find o settings env host (session.prober runner)
        { cache := session.cache, world := opened } = .error f s →
      ∃ w', configureBy find o settings env host runner w = .error f w' ∧
        Spared (o.buildRoot settings) w.tree opened.tree w'.tree ∧
        (∀ dir, opened.tree.LeadsTo (o.buildRoot settings) dir →
          ∀ name ∈ [ninjaFileName, helpFileName],
            w'.tree.node? (dir ++ [name]) = opened.tree.node? (dir ++ [name]) ∧
            w'.tree.content? (dir ++ [name]) = w.tree.content? (dir ++ [name]) ∧
            (name ∉ (o.buildRoot settings).pieces →
              w'.tree.node? (dir ++ [name]) = w.tree.node? (dir ++ [name]))) ∧
        ∀ saved, Session.saveCache session.cachePath s = .ok () saved →
          w' = saved.world ∧ ∀ flags verdict,
            session.cache.get? flags = some verdict ∨
              Obtained (session.prober runner)
                (planVariants session.toolchain (session.prober runner).exe settings env host)
                { cache := session.cache, world := opened } flags verdict →
            (Cache.load w'.tree session.cachePath session.toolchain.identity.cacheKey).1.get? flags =
              some verdict := by
  refine ⟨configureBy_findSources, fun name w' h => tree_of_compilerNotFound h,
    fun session opened f s start stopped => ?_⟩
  obtain ⟨hroot, opening, -⟩ := opened_of_start start
  obtain ⟨rfl, -⟩ := graphWork_error stopped
  rw [← hroot] at unlinked ⊢
  have spared := spared_leaves (p := session.prober runner)
    (s := { cache := session.cache, world := opened }) wf unlinked opening rfl
    (planVariants session.toolchain (session.prober runner).exe settings env host)
  refine ⟨_, configureBy_of_error start stopped, spared, fun dir leads name => spared.generated leads,
    fun saved save => ⟨by rw [Task.after_of_ok save], fun flags verdict known => ?_⟩⟩
  have hload : (Cache.load saved.world.tree session.cachePath session.cache.compiler).1 =
      (((session.prober runner).plan settings env host).after
        { cache := session.cache, world := opened }).cache :=
    load_after_session wf unlinked opening (get?_single_after_plan start) save
  rw [Task.after_of_ok save, ← (opened_of_start start).compiler, hload]
  rcases known with hloaded | obtained
  · exact get?_after_carryOut hloaded
  · exact obtained.get?

/-! ## Sources with one stem -/

theorem unlinked_twinProject : Unlinked ⟨"b"⟩ twinProject := by
  intro u dir hensure leads name target hlink
  rw [room_twinProject.ensureDirectory] at hensure
  injection hensure with _ hu
  subst hu
  obtain rfl := room_twinProject.leads.unique leads
  rw [node?_build_twinProject] at hlink
  cases hlink

/-- A way to find the sources of the project: as a run finds them. -/
def twinFinder : Finder := fun t => findSources Tree.refusal? t (twinOptions "cl").projectRoot
  twinSettings (Environment.scanBuild {})

/-- The variants of the project are found out, and then there is no graph. -/
theorem exists_graphWork_twins :
    ∃ session opened made planned target,
      Session.start (twinOptions "cl") twinSettings {} idleRunner ⟨twinProject, [], []⟩ =
          .ok session opened ∧
        session.toolchain = ⟨⟨.msvc, "cl", ⟨"cl"⟩⟩⟩ ∧ session.buildRoot = ⟨"b"⟩ ∧
        (session.prober idleRunner).plan twinSettings {} {}
          { cache := session.cache, world := opened } = .ok made planned ∧
        Prepared ["b"] twinProject planned.world.tree ∧
        graphWork twinFinder (twinOptions "cl") twinSettings {} {} (session.prober idleRunner)
          { cache := session.cache, world := opened } =
            .error (.inconsistent (.duplicateTarget target)) planned := by
  have hfamily : familyOfName? "cl" = some .msvc := by decide +kernel
  obtain ⟨session, opened, planned, ⟨baseline, variants⟩, start, htoolchain, hroot, plan, hmade,
    prepared, hfound⟩ := exists_plan_twinProject hfamily
  have hcxx : baseline.supportsCxx = true := congrArg (fun made => made.1.supportsCxx) hmade
  have drafted := Drafted.intro start plan hfound
  -- both sources are compiled, so their object is a target twice
  obtain ⟨target, refused⟩ := drafted.emit_repeats (.inl ⟨_, List.mem_cons_self, _,
    List.mem_cons_of_mem _ List.mem_cons_self, by decide, rfl, hcxx, by decide⟩)
  have hgraph : graphOf (session.prober idleRunner).toolchain baseline twinSettings
      ((twinOptions "cl").buildDirectory twinSettings)
      (selectLauncher (session.prober idleRunner).toolchain {} {}) variants twinSources =
        .error (.duplicateTarget target) := refused
  refine ⟨session, opened, _, planned, target, start, htoolchain, hroot, plan, prepared, ?_⟩
  rw [graphWork_of_plan twinFinder _ plan hfound, hgraph]

/-- The project with a source of each language with one stem is refused.  There is no build file and
no list of targets afterwards, and a verdict is loaded again. -/
theorem configure_spares_twins :
    ∃ target w', configure (twinOptions "cl") twinSettings {} {} idleRunner ⟨twinProject, [], []⟩ =
        .error (.inconsistent (.duplicateTarget target)) w' ∧
      (∀ name ∈ [ninjaFileName, helpFileName], w'.tree.node? (["b"] ++ [name]) = none) ∧
      ∃ flags verdict,
        (Cache.load w'.tree (cacheFile ⟨"b"⟩) "MSVC:cl").1.get? flags = some verdict := by
  obtain ⟨session, opened, made, planned, target, start, htoolchain, hroot, plan, prepared,
    stopped⟩ := exists_graphWork_twins
  obtain ⟨hsame, -, spares⟩ := configure_spares twinFinder (twinOptions "cl") twinSettings {} {}
    idleRunner ⟨twinProject, [], []⟩ wellFormed_twinProject unlinked_twinProject
  obtain ⟨w', hrun, spared, generated, kept⟩ := spares session opened _ planned start stopped
  have htree : opened.tree = twinProject := spared.there room_twinProject.leads.there
  refine ⟨target, w', hsame ▸ hrun, fun name hname => ?_, ?_⟩
  · have hnames : ∀ name ∈ [ninjaFileName, helpFileName], name ∉ (Path.mk "b").pieces := by decide
    obtain ⟨-, -, hnode⟩ := generated ["b"] (htree ▸ room_twinProject.leads) name hname
    exact (hnode (hnames name hname)).trans (node?_build_twinProject name)
  -- the cache is saved with what was asked
  have room : Room session.buildRoot ["b"] planned.world.tree := by
    rw [hroot]
    exact prepared.room room_twinProject (clear_twinProject (by decide))
  have cache : Clear session.buildRoot ["b"] planned.world.tree cacheFileName := by
    rw [hroot]
    exact prepared.clear (clear_twinProject (by decide))
  obtain ⟨-, hkept⟩ := kept _ (saveCache_eq_ok.2 ⟨_, cache.replaceText room _, rfl⟩)
  obtain ⟨checks, carried⟩ := carryOut_eq_ok_iff.1 plan
  obtain ⟨flags, hflags⟩ := exists_question session.toolchain (session.prober idleRunner).exe
    twinSettings {} {} planned.cache.verdict
  have hchecked : flags ∈ checks.map Check.flags := carried.questions ▸ hflags
  obtain ⟨c, hc, -⟩ := List.mem_map.1 hchecked
  have hloaded := hkept c.flags c.verdict (.inr (carried.obtained c hc))
  rw [Session.cachePath, hroot, htoolchain] at hloaded
  exact ⟨c.flags, c.verdict, hloaded⟩

end BuildMatrix
