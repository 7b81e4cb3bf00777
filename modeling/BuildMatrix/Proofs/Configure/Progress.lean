import BuildMatrix.Proofs.Configure.Run
import BuildMatrix.Proofs.Emission.Success
import BuildMatrix.Proofs.Session.Progress
import BuildMatrix.Proofs.Source.Collected
import BuildMatrix.Proofs.Source.Search

/-!
# Runs that get through

A run fails for one of four reasons: there is no compiler, a file cannot be written,
the sources cannot be found, or they do not make a graph.  If the compiler is found, the
files can be written, and the sources are found and make a graph whatever the compiler
accepts, the run succeeds (`exists_configure`).  Outside of the build root it changes
nothing.

Of the cache file less is asked than of the others.  It is the last file that is
written, so it may replace a link through which the run has come.
-/

namespace BuildMatrix

variable {o : Options} {settings : Settings} {env : Environment} {host : Host} {runner : Runner}

/-! ## Graphs -/

section Found

variable {t : Tree} {project : Path} {scanBuild : Bool} {sources : List Source}
  (found : findSources Tree.refusal? t project settings scanBuild = .ok sources)
include found

theorem distinct_of_found : (sources.map (·.path)).Nodup := by
  rw [eq_collectSources found]
  exact nodup_collectSources _ _ _ _

theorem unmade_of_found : ∀ s ∈ sources, Emitter.Unmade s := by
  rw [eq_collectSources found]
  exact fun s hs => unmade_collectSources hs

/-- Whatever the compiler accepts, sources of different stems make a graph if none is named as the
build names its own files. -/
theorem exists_graph (stems : ∀ s ∈ sources, ∀ s' ∈ sources, s.stem = s'.stem → s = s')
    {buildDir : Path}
    (foreign : ∀ s ∈ sources, s.stem ≠ registrationStem ∧
      s.path.toList.head? ≠ (Emitter.directoryText buildDir ++ "/").toList.head?)
    (tc : Toolchain) (b : Baseline) (verdict : FlagSet → Bool) (launcher : Option String) :
    ∃ graph, graphOf tc b settings buildDir launcher
      ((buildMatrix tc b host settings).answer verdict) sources = .ok graph := by
  have hnames := matrixNames_answer tc b host settings verdict
  exact Emitter.emit_of_fine hnames (distinct_of_found found) (unmade_of_found found)
    (Emitter.fine_of_foreign (fun s hs s' hs' _ _ => stems s hs s' hs') foreign)

end Found

/-! ## Runs -/

/-- What a run needs of its build root. -/
structure Provided (root : Path) (dir : Location) (t : Tree) : Prop where
  /-- The build root is there. -/
  room : Room root dir t
  /-- The program for probing can be written. -/
  source : Clear root dir t sourceName
  /-- The build file can be written. -/
  ninja : Clear root dir t ninjaFileName
  /-- The list of targets can be written. -/
  help : Clear root dir t helpFileName
  /-- The cache can be written, also over a link. -/
  cache : Writable root dir t cacheFileName

/-- A run makes a plan where its compiler is found and the program for probing can be written. -/
theorem exists_planned (host : Host) {w found : World} {tc : Toolchain} {root : Path}
    {dir : Location} (hroot : o.buildRoot settings = root)
    (detected : World.detect runner (o.cc <|> env.cc) w = .ok tc found)
    (room : Room root dir w.tree) (source : Clear root dir w.tree sourceName) :
    ∃ session opened checks made planned,
      Session.start o settings env runner w = .ok session opened ∧ session.toolchain = tc ∧
        session.buildRoot = root ∧ opened.tree = w.tree ∧
        Carried (session.prober runner)
          (planVariants session.toolchain (session.prober runner).exe settings env host)
          { cache := session.cache, world := opened } checks made planned ∧
        Prepared dir w.tree planned.world.tree := by
  subst hroot
  obtain ⟨session, opened, start, htoolchain, htree, -⟩ :=
    exists_session detected room.ensureDirectory
  have hsession := (opened_of_start start).root
  rw [← htree] at room source ⊢
  rw [← hsession] at room source
  obtain ⟨checks, made, planned, plan, prepared⟩ :=
    exists_prepared (p := session.prober runner)
      (planVariants session.toolchain (session.prober runner).exe settings env host)
      (s := { cache := session.cache, world := opened }) room source
  exact ⟨session, opened, checks, made, planned, start, htoolchain, hsession, rfl, plan, prepared⟩

/-- A run succeeds where it is provided for and the sources are found, before or after the program for
probing is there, and make a graph.  It leaves a well-formed tree
with a cache file, and writes nowhere but in the build root. -/
theorem exists_configure {w found : World} {tc : Toolchain} {root : Path} {dir : Location}
    (hroot : o.buildRoot settings = root)
    (detected : World.detect runner (o.cc <|> env.cc) w = .ok tc found)
    (provided : Provided root dir w.tree)
    (emits : ∀ b verdict t, Prepared dir w.tree t → ∃ sources graph,
      findSources Tree.refusal? t o.projectRoot settings env.scanBuild = .ok sources ∧
        graphOf tc b settings (o.buildDirectory settings) (selectLauncher tc host env)
          ((buildMatrix tc b host settings).answer verdict) sources = .ok graph) :
    ∃ made w', configure o settings env host runner w = .ok made w' ∧ made.identity = tc.identity ∧
      w'.tree.WellFormed ∧ (∃ c, w'.tree.node? (dir ++ [cacheFileName]) = some (.file c)) ∧
      w'.tree.here = w.tree.here ∧ ∀ location, (∀ name, location ≠ dir ++ [name]) →
        w'.tree.node? location = w.tree.node? location := by
  obtain ⟨session, opened, checks, ⟨baseline, variants⟩, planned, start, rfl, hsession, htree, plan,
    prepared⟩ := exists_planned host hroot detected provided.room provided.source
  rw [← htree] at provided prepared emits ⊢
  rw [← hsession] at provided
  -- the plan
  have hvariants : variants =
      (buildMatrix session.toolchain baseline host settings).answer planned.cache.verdict := by
    have hanswer := answer_planVariants settings env host session.toolchain
      (session.prober runner).exe planned.cache.verdict
    rw [← plan.answer.1] at hanswer
    exact hanswer
  obtain ⟨sources, graph, found, emit⟩ :=
    emits baseline planned.cache.verdict planned.world.tree prepared
  rw [← hvariants] at emit
  -- the files, one after the other
  have room := prepared.room provided.room provided.source
  have ninja := prepared.clear provided.ninja
  have help := (prepared.clear provided.help).put ninjaFileName (Ninja.render graph).toUTF8
  have cache := ((prepared.writable provided.cache).put ninjaFileName (Ninja.render graph).toUTF8).put
    helpFileName (renderHelp variants).toUTF8
  have room₁ := ninja.room_put room (Ninja.render graph).toUTF8
  have room₂ := help.room_put room₁ (renderHelp variants).toUTF8
  have work := Worked.intro plan found emit (ninja.replaceText room _) (help.replaceText room₁ _)
  have save := cache.replaceText room₂ planned.cache.toFile.render
  have ran : Ran o settings env host runner w _ _ := .intro start work save
  refine ⟨_, _, configure_eq_ok_iff.2 ran, rfl, cache.wellFormed_put room₂ _,
    ⟨planned.cache.toFile.render.toUTF8, ?_⟩, ?_, fun location hlocation => ?_⟩
  · exact Tree.node?_put_self (List.concat_ne_nil _ _) _
  · exact prepared.here
  · show (((planned.world.tree.put _ _).put _ _).put _ _).node? location = _
    rw [Tree.node?_put_of_ne (List.concat_ne_nil _ _) _ (hlocation _),
      Tree.node?_put_of_ne (List.concat_ne_nil _ _) _ (hlocation _),
      Tree.node?_put_of_ne (List.concat_ne_nil _ _) _ (hlocation _)]
    exact prepared.outside hlocation

/-! ## Runs without sources -/

/-- A run in a build directory, for a project without source directories. -/
def runIn (buildDir : Path) : Task Failure World Configured :=
  configure { buildDir := some buildDir, cc := some "cl" } { sourceDirs := [] } {} {} idleRunner

theorem buildRoot_runIn (buildDir : Path) :
    Options.buildRoot { buildDir := some buildDir, cc := some "cl" } { sourceDirs := [] } =
      buildDir := by
  show Path.join ⟨""⟩ buildDir = buildDir
  unfold Path.join
  split
  · rfl
  · rw [if_pos (.inl rfl), String.empty_append]

theorem exists_runIn {buildDir : Path} {dir : Location} {w : World}
    (provided : Provided buildDir dir w.tree) :
    ∃ made w', runIn buildDir w = .ok made w' ∧ made.identity = ⟨.msvc, "cl", ⟨"cl"⟩⟩ ∧
      w'.tree.WellFormed ∧ (∃ c, w'.tree.node? (dir ++ [cacheFileName]) = some (.file c)) ∧
      w'.tree.here = w.tree.here ∧ ∀ location, (∀ name, location ≠ dir ++ [name]) →
        w'.tree.node? location = w.tree.node? location := by
  obtain ⟨found, detected⟩ := detect_idleRunner w
  refine exists_configure (buildRoot_runIn buildDir) detected provided fun b verdict t _ => ?_
  have sources : findSources Tree.refusal? t ⟨""⟩ { sourceDirs := [] } false = .ok [] := rfl
  obtain ⟨graph, hgraph⟩ := exists_graph sources nofun nofun _ b verdict _
  exact ⟨[], graph, sources, hgraph⟩

end BuildMatrix
