import BuildMatrix.Proofs.Configure.Consistency
import BuildMatrix.Proofs.Source.Origin
import BuildMatrix.Proofs.Variant.Questions

/-!
# A run and its own files

A run does not tell its own files from those of the project.  The walks of the source
directories come after the probing, and what they take for a source goes into the graph
wherever it stands (`MakesGraph.mem_sources`).  So the files in the build root are kept
out of the graph by the directories alone: it is enough that no source directory holds
the build root or lies in it (`graph_sources_apart`).  When the session has been opened
this is settled, since probing leaves all directories and links as they are.

Where the project itself is a source directory, the program for probing becomes a source
in the run that wrote it (`graph_reads_program`).
-/

namespace BuildMatrix

variable {o : Options} {settings : Settings} {env : Environment} {host : Host} {runner : Runner}
  {w : World} {t u : Tree} {graph : Graph} {dir : Location}

/-! ## Graphs of runs -/

/-- A run makes a graph.  Its session was opened on the first tree, and its sources were found in the
second. -/
inductive MakesGraph (o : Options) (settings : Settings) (env : Environment) (host : Host)
    (runner : Runner) (w : World) : Tree → Tree → Graph → Prop
  | intro {session : Session} {opened : World} {baseline : Baseline} {variants : VariantSet}
      {planned : Probing} {sources : List Source} {graph : Graph}
      (start : Session.start o settings env runner w = .ok session opened)
      (plan : (session.prober runner).plan settings env host
        { cache := session.cache, world := opened } = .ok (baseline, variants) planned)
      (found : findSources Tree.refusal? planned.world.tree o.projectRoot settings env.scanBuild =
        .ok sources)
      (emit : graphOf session.toolchain baseline settings (o.buildDirectory settings)
        (selectLauncher session.toolchain host env) variants sources = .ok graph) :
      MakesGraph o settings env host runner w opened.tree planned.world.tree graph

namespace MakesGraph

/-- Probing leaves all directories and links as they were. -/
theorem same (makes : MakesGraph o settings env host runner w t u graph) (wf : w.tree.WellFormed) :
    Tree.Same t u := by
  obtain ⟨start, plan, -, -⟩ := makes
  obtain ⟨checks, carried⟩ := carryOut_eq_ok_iff.1 plan
  have ensured := (opened_of_start start).tree
  exact carried.same ((Tree.grows_ensureDirectory ensured).2 wf)
    (Tree.reaches_of_ensureDirectory ensured)

/-- The sources of the graph are the files that the walks take for sources. -/
theorem mem_sources (makes : MakesGraph o settings env host runner w t u graph) {path : String} :
    path ∈ graph.sources ↔ ∃ (s : Source) (location : Location),
      s.IsFileAt u o.projectRoot settings env.scanBuild location ∧ s.path = path := by
  obtain ⟨-, -, found, emit⟩ := makes
  obtain ⟨emitted, -⟩ := Emitter.emitted_of_emit emit
  rw [emitted.sources, eq_collectSources found, mem_paths_collectSources]

end MakesGraph

/-- A run that passes over the cache has always something to ask, so the program for probing is there
when the source directories are walked. -/
theorem program_of_plan {session : Session} {opened : World} {made : Baseline × VariantSet}
    {planned : Probing} (hcache : o.noCache = true)
    (start : Session.start o settings env runner w = .ok session opened)
    (plan : (session.prober runner).plan settings env host
      { cache := session.cache, world := opened } = .ok made planned) :
    Tree.writeText ((o.buildRoot settings).child sourceName) probeSource opened.tree =
      .ok () planned.world.tree := by
  obtain ⟨hroot, -, hstarting⟩ := opened_of_start start
  rw [if_pos hcache] at hstarting
  obtain ⟨checks, carried⟩ := carryOut_eq_ok_iff.1 plan
  rw [← hroot]
  refine (carried.same_or_written rfl).resolve_left fun hsame => ?_
  obtain ⟨flags, hasked⟩ := exists_question session.toolchain (session.prober runner).exe settings env
    host planned.cache.verdict
  have hknown := carried.answer.2 flags hasked
  rw [hsame, hstarting] at hknown
  cases hknown

/-! ## Directories that are apart -/

/-- No source directory holds the build root or lies in it. -/
def Apart (t : Tree) (project : Path) (dirs : List Path) (dir : Location) : Prop :=
  ∀ d ∈ dirs, ∀ base, t.directory? (project.join d) = some base → ¬ base <+: dir ∧ ¬ dir <+: base

/-- What stands below a source directory does not stand below one that is apart. -/
theorem Apart.outside {project : Path} {dirs : List Path}
    (apart : Apart t project dirs dir) {d : Path} (hd : d ∈ dirs) {location base : Location}
    {names : List String} {f : Found} (met : Met t project d location base names f) :
    ¬ dir <+: location := by
  obtain ⟨hholds, hlies⟩ := apart d hd base met.leads
  intro hdir
  have hbase : base <+: location := ⟨names, met.below.2.symm⟩
  -- both are beginnings of one location, so one begins with the other
  rcases List.prefix_or_prefix_of_prefix hbase hdir with h | h
  · exact hholds h
  · exact hlies h

/-- Every graph of a run has as its sources exactly the files that the walks of the source directories
take for sources after the probing, also those in the build root.  If, when the session has been
opened, no source directory holds the build root or lies in it, then no source of the graph is a
file in the build root, neither the program for probing nor what an earlier build left there. -/
theorem graph_sources_apart (wf : w.tree.WellFormed)
    (makes : MakesGraph o settings env host runner w t u graph)
    (leads : t.LeadsTo (o.buildRoot settings) dir) :
    u.LeadsTo (o.buildRoot settings) dir ∧
      (∀ path, path ∈ graph.sources ↔ ∃ (s : Source) (location : Location),
        s.IsFileAt u o.projectRoot settings env.scanBuild location ∧ s.path = path) ∧
      (Apart t o.projectRoot settings.sourceDirs dir →
        ∀ (s : Source) (location : Location), s.path ∈ graph.sources →
          s.IsFileAt u o.projectRoot settings env.scanBuild location → ¬ dir <+: location) := by
  have same := makes.same wf
  refine ⟨leads.within same.1, fun path => makes.mem_sources, fun apart s location _ hfile => ?_⟩
  obtain ⟨d, hd, base, names, f, met, -⟩ := hfile
  have apart' : Apart u o.projectRoot settings.sourceDirs dir := by
    intro d hd base hbase
    rw [same.directory?] at hbase
    exact apart d hd base hbase
  exact apart'.outside hd met

/-! ## A build root beside the sources -/

/-- The project with sources of both languages after it was probed. -/
def probedProject : Tree := twinProject.put ["b", sourceName] (.file probeSource.toUTF8)

/-- When the plan was made the program for probing is there. -/
theorem planned_twinProject {cc : String} {settings : Settings} {runner : Runner} {session : Session}
    {opened : World} {made : Baseline × VariantSet} {planned : Probing}
    (start : Session.start (twinOptions cc) settings {} runner ⟨twinProject, [], []⟩ =
      .ok session opened)
    (plan : (session.prober runner).plan settings {} {}
      { cache := session.cache, world := opened } = .ok made planned) :
    planned.world.tree = probedProject := by
  have source : Clear ⟨"b"⟩ ["b"] twinProject sourceName := clear_twinProject List.mem_cons_self
  have ensured := (opened_of_start start).tree
  rw [(opened_of_start start).root, buildRoot_twinOptions, room_twinProject.ensureDirectory] at ensured
  injection ensured with _ hopened
  have hwritten := program_of_plan rfl start plan
  rw [buildRoot_twinOptions, ← hopened, source.writeText room_twinProject probeSource] at hwritten
  injection hwritten with _ hwritten
  exact hwritten.symm

/-- For a compiler that does one language, any settings make a graph of the project, unless their
sources share a stem or are named as the build names its own files. -/
theorem exists_graph_twinProject {settings : Settings} {sources : List Source}
    (found : findSources Tree.refusal? probedProject ⟨""⟩ settings false = .ok sources)
    (stems : ∀ s ∈ sources, ∀ s' ∈ sources, s.language = .c → s'.language = .c →
      s.stem = s'.stem → s = s')
    (foreign : ∀ s ∈ sources, s.stem ≠ registrationStem ∧
      s.path.toList.head? ≠ ("b" ++ "/").toList.head?) :
    ∃ graph, MakesGraph (twinOptions "cproc") settings {} {} idleRunner ⟨twinProject, [], []⟩
      twinProject probedProject graph := by
  have hfamily : familyOfName? "cproc" = some .cproc := by decide +kernel
  obtain ⟨session, opened, planned, ⟨baseline, variants⟩, start, -, -, hopened, plan, hmade, -⟩ :=
    exists_plan_twinOptions hfamily settings
  have hplanned := planned_twinProject start plan
  have hcxx : baseline.supportsCxx = false := congrArg (fun made => made.1.supportsCxx) hmade
  have hfound : findSources Tree.refusal? planned.world.tree (twinOptions "cproc").projectRoot
      settings (Environment.scanBuild {}) = .ok sources := by
    rw [hplanned]
    exact found
  have drafted := Drafted.intro start plan hfound
  have hdir : Emitter.directoryText ((twinOptions "cproc").buildDirectory settings) = "b" := by
    show Emitter.directoryText ⟨"b"⟩ = "b"
    decide +kernel
  obtain ⟨graph, emit⟩ := drafted.emit_succeeds (Emitter.fine_of_c hcxx hdir stems foreign)
  have makes := MakesGraph.intro start plan hfound emit
  rw [hopened, hplanned] at makes
  exact ⟨graph, makes⟩

theorem directory?_sources : twinProject.directory? (Path.join ⟨""⟩ ⟨"s"⟩) = some ["s"] := by
  rw [show Path.join ⟨""⟩ ⟨"s"⟩ = ⟨"s"⟩ by decide, Tree.directory?_eq_some_iff]
  exact find?_directory (by decide) rfl (by decide)

/-- In the project the build root lies beside the sources.  These are found, and none of them is in the
build root. -/
theorem graph_sources_apart_twins :
    ∃ graph, MakesGraph (twinOptions "cproc") twinSettings {} {} idleRunner ⟨twinProject, [], []⟩
        twinProject probedProject graph ∧
      Apart twinProject ⟨""⟩ twinSettings.sourceDirs ["b"] ∧
      (∀ path, path ∈ graph.sources ↔ path = "s/a.c" ∨ path = "s/a.cxx") ∧
      ∀ (s : Source) (location : Location), s.path ∈ graph.sources →
        s.IsFileAt probedProject ⟨""⟩ twinSettings false location → ¬ ["b"] <+: location := by
  have found : findSources Tree.refusal? probedProject ⟨""⟩ twinSettings false = .ok twinSources :=
    findSources_twinProject (.inr rfl)
  obtain ⟨graph, makes⟩ := exists_graph_twinProject found (by decide +kernel) (by decide +kernel)
  have leads : twinProject.LeadsTo ((twinOptions "cproc").buildRoot twinSettings) ["b"] := by
    rw [buildRoot_twinOptions]
    exact room_twinProject.leads
  have apart : Apart twinProject ⟨""⟩ twinSettings.sourceDirs ["b"] := by
    intro d hd base hbase
    rw [List.mem_singleton.1 hd, directory?_sources] at hbase
    injection hbase with hbase
    rw [← hbase]
    decide
  obtain ⟨-, hsources, outside⟩ := graph_sources_apart wellFormed_twinProject makes leads
  refine ⟨graph, makes, apart, fun path => ?_, outside apart⟩
  rw [hsources, show (twinOptions "cproc").projectRoot = ⟨""⟩ from rfl,
    show Environment.scanBuild {} = false from rfl, ← mem_paths_collectSources,
    ← eq_collectSources found]
  simp [twinSources]

/-! ## A build root among the sources -/

/-- Settings under which the project itself is a source directory. -/
def openSettings : Settings := { sourceDirs := [⟨"."⟩] }

theorem directory?_project {t : Tree} (here : t.here = []) :
    t.directory? (Path.join ⟨""⟩ ⟨"."⟩) = some [] := by
  rw [show Path.join ⟨""⟩ ⟨"."⟩ = ⟨"."⟩ by decide, Tree.directory?_eq_some_iff,
    Tree.find?_eq_some_iff, Tree.locate, Tree.follow_of_followable (by decide),
    show Path.pieces ⟨"."⟩ = ["."] by decide, Tree.resolve_idle (.inr rfl), Tree.resolve_nil,
    Tree.startOf, here, ite_self, t.node?_nil]

/-- The sources under these settings. -/
def openSources : List Source :=
  [⟨"./b/flagtest.c", .c, false, false⟩, ⟨"./s/a.c", .c, false, false⟩,
    ⟨"./s/a.cxx", .cxx, false, false⟩]

/-- With the sources of the project the program for probing is found in its build root. -/
theorem findSources_probedProject :
    findSources Tree.refusal? probedProject ⟨""⟩ openSettings false = .ok openSources := by
  have hsteps : stepsBelow probedProject ⟨""⟩ openSettings false ⟨"."⟩ =
      [.list ⟨"."⟩ ⟨"."⟩, .list ⟨"."⟩ ⟨"./b"⟩,
        .take ⟨"./b/flagtest.c"⟩ ⟨"./b/flagtest.c", .c, false, false⟩, .list ⟨"."⟩ ⟨"./s"⟩,
        .take ⟨"./s/a.c"⟩ ⟨"./s/a.c", .c, false, false⟩,
        .take ⟨"./s/a.cxx"⟩ ⟨"./s/a.cxx", .cxx, false, false⟩] := by
    rw [stepsBelow_eq, directory?_project rfl]
    decide +kernel
  rw [findSources_single rfl hsteps]
  rfl

/-- Where the project itself is a source directory, the program that a run has written for probing is a
source of the graph that the run makes, though it is a file in the build root. -/
theorem graph_reads_program :
    twinProject.WellFormed ∧ twinProject.node? ["b", "flagtest.c"] = none ∧
      ∃ graph, MakesGraph (twinOptions "cproc") openSettings {} {} idleRunner ⟨twinProject, [], []⟩
          twinProject probedProject graph ∧
        probedProject.LeadsTo ((twinOptions "cproc").buildRoot openSettings) ["b"] ∧
        ∃ s : Source, s.path = "./b/flagtest.c" ∧ s.path ∈ graph.sources ∧
          s.IsFileAt probedProject ⟨""⟩ openSettings false (["b"] ++ ["flagtest.c"]) := by
  obtain ⟨graph, makes⟩ := exists_graph_twinProject findSources_probedProject (by decide +kernel)
    (by decide +kernel)
  have program : Source.IsFileAt probedProject ⟨""⟩ openSettings false
      ⟨"./b/flagtest.c", .c, false, false⟩ (["b"] ++ ["flagtest.c"]) := by
    refine ⟨⟨"."⟩, List.mem_singleton_self _, [], ["b", "flagtest.c"],
      ⟨⟨"./b/flagtest.c"⟩, "flagtest.c", probeSource.toUTF8⟩,
      ⟨directory?_project rfl, ?_, ?_, ?_, rfl⟩, ?_⟩
    · exact ⟨List.cons_ne_nil _ _, rfl⟩
    · exact Tree.node?_put_self (List.cons_ne_nil _ _) _
    · decide +kernel
    · decide +kernel
  have leads : twinProject.LeadsTo ((twinOptions "cproc").buildRoot openSettings) ["b"] := by
    rw [buildRoot_twinOptions]
    exact room_twinProject.leads
  refine ⟨wellFormed_twinProject, node?_build_twinProject _, graph, makes,
    leads.within (makes.same wellFormed_twinProject).1, _, rfl, ?_, program⟩
  exact makes.mem_sources.2 ⟨_, _, program, rfl⟩

end BuildMatrix
