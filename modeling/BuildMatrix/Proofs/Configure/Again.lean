import BuildMatrix.Proofs.Configure.Feedback
import BuildMatrix.Proofs.Configure.Output
import BuildMatrix.Proofs.Probe.Recall
import BuildMatrix.Proofs.Session.History
import BuildMatrix.Proofs.Variant.Questions

/-!
# Running again

A run that succeeded can be repeated at once (`configure_again`).  What it leaves
(`Leaves`) is enough for the next run to take every step to the same end.  The cache
in the file knows all verdicts that were asked for, so the same variants are planned
without a command.  The search finds the same sources, since the outputs are none, so
the same graph is made.  Then each of the three texts is replaced by itself.

It matters that the paths of the run do not lead through the outputs.  A run replaces
a link at the name of an output by a file, and what was reached through the link is
not reached any more: a build root that leads through it is lost
(`configure_not_again`).
-/

namespace BuildMatrix

variable {o : Options} {settings : Settings} {env : Environment} {host : Host} {runner : Runner}

/-! ## What a run leaves -/

/-- The tree that a run leaves, with what the run found out. -/
structure Leaves (o : Options) (settings : Settings) (env : Environment) (host : Host)
    (made : Configured) (dir : Location) (t : Tree) (baseline : Baseline) (variants : VariantSet)
    (sources : List Source) (graph : Graph) (cache : Cache) : Prop where
  /-- The build root is where the options say. -/
  root : made.buildRoot = o.buildRoot settings
  /-- It is there. -/
  room : Room (o.buildRoot settings) dir t
  /-- From the cache that was kept the same variants are planned, without a command. -/
  plan : ∀ (p : Prober) (s : Probing), p.toolchain = ⟨made.identity⟩ →
    p.scratch = o.buildRoot settings → s.cache = cache.reread →
      p.carryOut (planVariants p.toolchain p.exe settings env host) s = .ok (baseline, variants) s
  /-- These sources are there. -/
  found : findSources Tree.refusal? t o.projectRoot settings env.scanBuild = .ok sources
  /-- The graph is theirs. -/
  emit : graphOf ⟨made.identity⟩ baseline settings (o.buildDirectory settings)
    (selectLauncher ⟨made.identity⟩ host env) variants sources = .ok graph
  /-- The names of the variants that was reported. -/
  names : made.variants = variants.names
  /-- The number of sources that was reported. -/
  count : made.sources = sources.length
  /-- The build file stands. -/
  ninja : Stands (o.buildRoot settings) dir t ninjaFileName (Ninja.render graph)
  /-- The list of targets stands. -/
  help : Stands (o.buildRoot settings) dir t helpFileName (renderHelp variants)
  /-- The cache is that of the compiler. -/
  compiler : cache.compiler = made.identity.cacheKey
  /-- The cache stands. -/
  kept : Stands (o.buildRoot settings) dir t cacheFileName cache.toFile.render

theorem Ran.leaves {w w₁ : World} {made : Configured}
    (ran : Ran o settings env host runner w made w₁) (wf : w.tree.WellFormed)
    (direct : ∀ t, Tree.ensureDirectory (o.buildRoot settings) w.tree = .ok () t →
      Direct (o.buildRoot settings) o.projectRoot settings.sourceDirs t) :
    ∃ dir baseline variants sources graph cache,
      Leaves o settings env host made dir w₁.tree baseline variants sources graph cache := by
  cases ran with
  | @intro session opened made s t start work save =>
  cases work with
  | @intro checks baseline variants planned sources graph t₁ t₂ plan found emit ninja help =>
  have hopened := opened_of_start start
  have hroot := hopened.root
  have hscratch : (session.prober runner).scratch = o.buildRoot settings := hroot
  have hensure := hopened.tree
  rw [hroot] at hensure
  have wf' := (Tree.grows_ensureDirectory hensure).2 wf
  have there := Tree.reaches_of_ensureDirectory hensure
  have same := plan.same wf' (by rw [hscratch]; exact there)
  rw [Session.cachePath, hroot] at save
  rw [hscratch] at ninja help
  obtain ⟨dir, room, standsNinja, standsHelp, standsCache, hsources⟩ :=
    exists_stands wf' there (direct _ hensure) plan.changes same ninja help save
  refine ⟨dir, baseline, variants, sources, graph, planned.cache, hroot, room, ?_,
    (hsources _ _).trans found, emit, rfl, rfl, standsNinja, standsHelp, ?_, standsCache⟩
  · intro p again htoolchain hagain hcache
    have hexe : p.exe = (session.prober runner).exe := by
      rw [Prober.exe, Prober.exe, htoolchain, hagain, ← hroot]
      rfl
    rw [htoolchain, hexe]
    exact carryOut_reread plan (fun _ => NeverBlank.planVariants _ _ _ _ _) hcache
  · rw [show planned.cache.compiler = session.cache.compiler from plan.compiler]
    exact hopened.compiler

/-! ## Running again -/

theorem Leaves.again {made : Configured} {dir : Location} {t : Tree} {baseline : Baseline}
    {variants : VariantSet} {sources : List Source} {graph : Graph} {cache : Cache}
    (leaves : Leaves o settings env host made dir t baseline variants sources graph cache)
    (hcache : o.noCache = false) {w found : World} (htree : w.tree = t)
    (detected : World.detect runner (o.cc <|> env.cc) w = .ok ⟨made.identity⟩ found) :
    ∃ w', Ran o settings env host runner w { made with probes := 0 } w' ∧
      w'.tree = t ∧ w'.calls = found.calls := by
  have room := leaves.room
  -- the session starts with what the cache said
  have hensure : Tree.ensureDirectory (o.buildRoot settings) w.tree = .ok () t := by
    rw [htree]
    exact room.ensureDirectory
  obtain ⟨session, opened, start, htoolchain, hopened, hcalls⟩ := exists_session detected hensure
  obtain ⟨hroot, -, hstarting⟩ := opened_of_start start
  have hsession : session.cache = cache.reread := by
    obtain ⟨front, ends⟩ := endsIn_cacheFile (o.buildRoot settings)
    have hload := load_of_text ends (.refl t) (leaves.kept.locate room) cache.compiler
    rw [hstarting, hcache, if_neg Bool.false_ne_true, Session.cachePath, hroot, hopened, htoolchain,
      ← leaves.compiler]
    exact hload.trans (Cache.ofText_render _)
  -- the same variants are planned, and the same texts are written
  obtain ⟨checks, plan⟩ := carryOut_eq_ok_iff.1
    (leaves.plan (session.prober runner) { cache := session.cache, world := opened } htoolchain hroot
      hsession)
  have hscratch : (session.prober runner).scratch = o.buildRoot settings := hroot
  have htool : (session.prober runner).toolchain = ⟨made.identity⟩ := htoolchain
  have found : findSources Tree.refusal? opened.tree o.projectRoot settings env.scanBuild =
      .ok sources := by
    rw [hopened]
    exact leaves.found
  have hemit : graphOf (session.prober runner).toolchain baseline settings
      (o.buildDirectory settings) (selectLauncher (session.prober runner).toolchain host env) variants
      sources = .ok graph := by
    rw [htool]
    exact leaves.emit
  have hninja : Tree.replaceText ((session.prober runner).scratch.child ninjaFileName)
      (Ninja.render graph) opened.tree = .ok () t := by
    rw [hscratch, hopened]
    exact leaves.ninja.again room
  have hhelp : Tree.replaceText ((session.prober runner).scratch.child helpFileName)
      (renderHelp variants) t = .ok () t := by
    rw [hscratch]
    exact leaves.help.again room
  have work := Worked.intro plan found hemit hninja hhelp
  have hreport : report (session.prober runner) variants sources
      { cache := session.cache, world := opened } = { made with probes := 0 } := by
    rw [report, htool, hscratch, ← leaves.root, ← leaves.names, ← leaves.count]
  rw [hreport] at work
  have save : Tree.replaceText session.cachePath session.cache.toFile.render t = .ok () t := by
    rw [Session.cachePath, hroot, hsession, Cache.toFile_reread]
    exact leaves.kept.again room
  exact ⟨_, .intro start work save, rfl, hcalls⟩

theorem leaves_of_noCache {made : Configured} {dir : Location} {t : Tree} {baseline : Baseline}
    {variants : VariantSet} {sources : List Source} {graph : Graph} {cache : Cache}
    (leaves : Leaves o settings env host made dir t baseline variants sources graph cache) :
    Leaves { o with noCache := false } settings env host made dir t baseline variants sources graph
      cache :=
  ⟨leaves.root, leaves.room, leaves.plan, leaves.found, leaves.emit, leaves.names, leaves.count,
    leaves.ninja, leaves.help, leaves.compiler, leaves.kept⟩

/-- Where the paths of the build root and of the source directories do not depend on what stands at the
outputs, a run that succeeded can be repeated at once: with a compiler of the same identity the second
run succeeds, runs no command for probing, reports the same variants and sources, and leaves all files
as they are. -/
theorem configure_again {w w₁ w₂ found : World} {made : Configured} {runner' : Runner}
    (wf : w.tree.WellFormed)
    (direct : ∀ t, Tree.ensureDirectory (o.buildRoot settings) w.tree = .ok () t →
      Direct (o.buildRoot settings) o.projectRoot settings.sourceDirs t)
    (first : configure o settings env host runner w = .ok made w₁) (untouched : w₂.tree = w₁.tree)
    (detected : World.detect runner' (o.cc <|> env.cc) w₂ = .ok ⟨made.identity⟩ found) :
    ∃ w₃, configure { o with noCache := false } settings env host runner' w₂ =
        .ok { made with probes := 0 } w₃ ∧
      w₃.tree = w₁.tree ∧ w₃.calls = found.calls := by
  obtain ⟨dir, baseline, variants, sources, graph, cache, leaves⟩ :=
    (configure_eq_ok_iff.1 first).leaves wf direct
  obtain ⟨w₃, ran, htree, hcalls⟩ := (leaves_of_noCache leaves).again rfl untouched detected
  exact ⟨w₃, configure_eq_ok_iff.2 ran, htree, hcalls⟩

/-- Settings under which the project itself is a source directory, and its source in C++ a
benchmark. -/
def benchSettings : Settings := { sourceDirs := [⟨"."⟩], benchmarkMarker := ".cxx" }

/-- The sources under these settings when the project was probed. -/
def benchSources : List Source :=
  [⟨"./b/flagtest.c", .c, false, false⟩, ⟨"./s/a.c", .c, false, false⟩]

theorem findSources_bench :
    findSources Tree.refusal? probedProject ⟨""⟩ benchSettings false = .ok benchSources := by
  have hsteps : stepsBelow probedProject ⟨""⟩ benchSettings false ⟨"."⟩ =
      [.list ⟨"."⟩ ⟨"."⟩, .list ⟨"."⟩ ⟨"./b"⟩,
        .take ⟨"./b/flagtest.c"⟩ ⟨"./b/flagtest.c", .c, false, false⟩, .list ⟨"."⟩ ⟨"./s"⟩,
        .take ⟨"./s/a.c"⟩ ⟨"./s/a.c", .c, false, false⟩] := by
    rw [stepsBelow_eq, directory?_project rfl]
    decide +kernel
  rw [findSources_single rfl hsteps]
  rfl

/-- Before, one of them is missing. -/
theorem exists_benchSources {t : Tree} (prepared : Prepared ["b"] twinProject t) :
    ∃ sources ⊆ benchSources,
      findSources Tree.refusal? t ⟨""⟩ benchSettings false = .ok sources := by
  rcases prepared with rfl | rfl
  · have hsteps : stepsBelow twinProject ⟨""⟩ benchSettings false ⟨"."⟩ =
        [.list ⟨"."⟩ ⟨"."⟩, .list ⟨"."⟩ ⟨"./b"⟩, .list ⟨"."⟩ ⟨"./s"⟩,
          .take ⟨"./s/a.c"⟩ ⟨"./s/a.c", .c, false, false⟩] := by
      rw [stepsBelow_eq, directory?_project rfl]
      decide +kernel
    refine ⟨benchSources.tail, List.subset_of_cons_subset (List.Subset.refl _), ?_⟩
    rw [findSources_single rfl hsteps]
    rfl
  · exact ⟨benchSources, List.Subset.refl _, findSources_bench⟩

theorem provided_twinProject : Provided ⟨"b"⟩ ["b"] twinProject :=
  ⟨room_twinProject, clear_twinProject (by decide), clear_twinProject (by decide),
    clear_twinProject (by decide), (clear_twinProject (by decide)).toWritable⟩

theorem direct_twinProject (project : Path) (dirs : List Path) :
    Direct ⟨"b"⟩ project dirs twinProject := by
  refine direct_of_files (fun name hname location node hlocate => ?_) _ _
  have clear : Clear ⟨"b"⟩ ["b"] twinProject name :=
    clear_twinProject (List.mem_cons_of_mem _ hname)
  obtain ⟨front, entry⟩ := clear.entry room_twinProject
  rw [entry.locate (.inl rfl), Tree.placeOf, node?_build_twinProject] at hlocate
  cases hlocate

theorem emits_bench (b : Baseline) (verdict : FlagSet → Bool) (t : Tree)
    (prepared : Prepared ["b"] twinProject t) :
    ∃ sources graph, findSources Tree.refusal? t ⟨""⟩ benchSettings false = .ok sources ∧
      graphOf ⟨⟨.msvc, "cl", ⟨"cl"⟩⟩⟩ b benchSettings ⟨"b"⟩ none
        ((buildMatrix ⟨⟨.msvc, "cl", ⟨"cl"⟩⟩⟩ b {} benchSettings).answer verdict) sources =
          .ok graph := by
  have stems : ∀ s ∈ benchSources, ∀ s' ∈ benchSources, s.stem = s'.stem → s = s' := by
    decide +kernel
  have foreign : ∀ s ∈ benchSources, s.stem ≠ registrationStem ∧
      s.path.toList.head? ≠ (Emitter.directoryText ⟨"b"⟩ ++ "/").toList.head? := by
    decide +kernel
  obtain ⟨sources, among, found⟩ := exists_benchSources prepared
  obtain ⟨graph, emit⟩ := exists_graph found
    (fun s hs s' hs' => stems s (among hs) s' (among hs')) (fun s hs => foreign s (among hs))
    _ b verdict none
  exact ⟨sources, graph, found, emit⟩

/-- A run in the project reports the sources of the probed project. -/
theorem sources_of_twinProject {cc : String} {made : Configured} {w' : World}
    {sources : List Source}
    (h : configure (twinOptions cc) settings {} {} runner ⟨twinProject, [], []⟩ = .ok made w')
    (found : findSources Tree.refusal? probedProject ⟨""⟩ settings false = .ok sources) :
    made.sources = sources.length := by
  cases configure_eq_ok_iff.1 h with
  | intro start work save =>
  cases work with
  | intro plan hfound emit ninja help =>
  have hplanned := planned_twinProject start (carryOut_eq_ok_iff.2 ⟨_, plan⟩)
  rw [hplanned] at hfound
  injection hfound.symm.trans found with hsources
  rw [report, hsources]

/-- In a project that holds its build root, a run with a compiler that accepts everything finds the
program for probing among the sources.  It is repeated with one that would refuse everything. -/
theorem configure_again_twins :
    ∃ made w₁ w₂, configure (twinOptions "cl") benchSettings {} {} Prober.lenientRunner
        ⟨twinProject, [], []⟩ = .ok made w₁ ∧
      made.sources = 2 ∧
      configure { twinOptions "cl" with noCache := false } benchSettings {} {} idleRunner w₁ =
        .ok { made with probes := 0 } w₂ ∧
      w₂.tree = w₁.tree := by
  have hroot := buildRoot_twinOptions "cl" benchSettings
  -- the first run
  obtain ⟨made, w₁, first, hidentity⟩ : ∃ made w₁,
      configure (twinOptions "cl") benchSettings {} {} Prober.lenientRunner ⟨twinProject, [], []⟩ =
        .ok made w₁ ∧ made.identity = ⟨.msvc, "cl", ⟨"cl"⟩⟩ := by
    have hfind : Prober.lenientRunner.find? "cl" = some ⟨"cl"⟩ := rfl
    obtain ⟨found, detected⟩ := detect_cl hfind ⟨twinProject, [], []⟩
    obtain ⟨made, w₁, first, hidentity, -⟩ := @exists_configure (twinOptions "cl") benchSettings {} {}
      Prober.lenientRunner ⟨twinProject, [], []⟩ _ _ _ _ hroot detected provided_twinProject
      emits_bench
    exact ⟨made, w₁, first, hidentity⟩
  -- and the second
  have direct : ∀ t, Tree.ensureDirectory ((twinOptions "cl").buildRoot benchSettings) twinProject =
      .ok () t →
        Direct ((twinOptions "cl").buildRoot benchSettings) ⟨""⟩ benchSettings.sourceDirs t := by
    rw [hroot]
    intro t hensure
    rw [room_twinProject.ensureDirectory] at hensure
    injection hensure with _ ht
    rw [← ht]
    exact direct_twinProject _ _
  obtain ⟨found, detected⟩ := detect_idleRunner w₁
  rw [← hidentity] at detected
  obtain ⟨w₂, second, htree, -⟩ := configure_again wellFormed_twinProject direct first rfl detected
  exact ⟨made, w₁, w₂, first, sources_of_twinProject first findSources_bench, second, htree⟩

/-! ## A build root behind an output -/

/-- A build root whose cache file is a link to a directory in it. -/
def linkedProject : Tree :=
  (bareProject.put ["b", "x"] .directory).put ["b", cacheFileName] (.link ⟨"x"⟩)

/-- The same build root, seen through the link. -/
def behindLink : Path := ⟨"b/config.json/.."⟩

theorem node?_linkedProject (name : String) :
    linkedProject.node? (["b"] ++ [name]) =
      if name = cacheFileName then some (.link ⟨"x"⟩)
      else if name = "x" then some .directory else none := by
  have hname : ∀ other, ["b"] ++ [name] = ["b", other] ↔ name = other := fun other =>
    ⟨fun h => (List.cons.inj (List.cons.inj h).2).1, fun h => by rw [h]; rfl⟩
  rw [linkedProject, Tree.node?_put (List.cons_ne_nil _ _), Tree.node?_put (List.cons_ne_nil _ _),
    node?_bareProject]
  simp only [hname]

theorem directory_linkedProject : linkedProject.node? ["b"] = some .directory := by
  rw [linkedProject, Tree.node?_put_of_ne (List.cons_ne_nil _ _) _ (by decide),
    Tree.node?_put_of_ne (List.cons_ne_nil _ _) _ (by decide)]
  exact Tree.node?_put_self (List.cons_ne_nil _ _) _

theorem wellFormed_linkedProject : linkedProject.WellFormed := by
  have hdirectory : bareProject.node? ["b"] = some .directory :=
    Tree.node?_put_self (List.cons_ne_nil _ _) _
  have fits : bareProject.Fits ["b", "x"] := by
    refine ⟨List.cons_ne_nil _ _, hdirectory, ?_⟩
    rw [show ["b", "x"] = ["b"] ++ ["x"] from rfl, node?_bareProject]
    exact fun h => by cases h
  have fits' : (bareProject.put ["b", "x"] .directory).Fits ["b", cacheFileName] := by
    refine ⟨List.cons_ne_nil _ _, ?_, ?_⟩
    · rw [Tree.node?_put_of_ne (List.cons_ne_nil _ _) _ (by decide)]
      exact hdirectory
    · rw [Tree.node?_put_of_ne (List.cons_ne_nil _ _) _ (by decide),
        show ["b", cacheFileName] = ["b"] ++ [cacheFileName] from rfl, node?_bareProject]
      exact fun h => by cases h
  exact fits'.wellFormed (fits.wellFormed room_bareProject.wf _) _

theorem room_linkedProject : Room behindLink ["b"] linkedProject := by
  have hlink : linkedProject.node? (["b"] ++ [cacheFileName]) = some (.link ⟨"x"⟩) := by
    rw [node?_linkedProject, if_pos rfl]
  have hx : linkedProject.node? (["b"] ++ ["x"]) = some .directory := by
    rw [node?_linkedProject, if_neg (by decide), if_pos rfl]
  have hpieces : behindLink.pieces = ["b", cacheFileName, ".."] := by decide
  have hstart : linkedProject.startOf behindLink = [] := by decide
  have htarget : (Path.mk "x").isAbsolute = false ∧ (Path.mk "x").pieces = ["x"] := by
    decide
  refine ⟨wellFormed_linkedProject, .inl (Tree.find?_eq_some_iff.2 ?_)⟩
  rw [Tree.locate, Tree.follow_of_followable (by decide), hpieces, hstart]
  -- down to the build root, through the link and up again
  rw [Tree.resolve_named (by decide) (by decide) linkedProject.node?_nil, List.nil_append,
    directory_linkedProject]
  show linkedProject.resolve .node Tree.linkLimit ["b"] [cacheFileName, ".."] = _
  rw [Tree.resolve_named (by decide) (by decide) directory_linkedProject, hlink]
  show linkedProject.resolve .node 39 (if (Path.mk "x").isAbsolute then [] else ["b"])
    ((Path.mk "x").pieces ++ [".."]) = _
  rw [htarget.1, htarget.2]
  show linkedProject.resolve .node 39 ["b"] ["x", ".."] = _
  rw [Tree.resolve_named (by decide) (by decide) directory_linkedProject, hx]
  show linkedProject.resolve .node 39 (["b"] ++ ["x"]) [".."] = _
  rw [Tree.resolve_up hx, List.dropLast_concat, Tree.resolve_nil, directory_linkedProject]

theorem provided_linkedProject : Provided behindLink ["b"] linkedProject := by
  have hnames : ∀ name ∈ sourceName :: outputNames,
      Plain name ∧ ¬ Tree.nameLimit < name.utf8ByteSize ∧
        Tree.Followable (behindLink.child name) ∧ linkedProject.Roomy (behindLink.child name) := by
    decide
  have hvacant : ∀ name, name ≠ cacheFileName → name ≠ "x" →
      linkedProject.node? (["b"] ++ [name]) = none := by
    intro name hcache hx
    rw [node?_linkedProject, if_neg hcache, if_neg hx]
  obtain ⟨plain, short, followable, roomy⟩ := hnames cacheFileName (by decide)
  refine ⟨room_linkedProject, ?_, ?_, ?_, plain, short, followable, roomy, ?_⟩
  · exact clear_of_vacant (hnames _ (by decide)) (hvacant _ (by decide) (by decide))
  · exact clear_of_vacant (hnames _ (by decide)) (hvacant _ (by decide) (by decide))
  · exact clear_of_vacant (hnames _ (by decide)) (hvacant _ (by decide) (by decide))
  · rw [node?_linkedProject, if_pos rfl]
    exact fun h => by cases h

/-- Once a file stands where the link was, the path is not followed through it any more. -/
theorem locate_behindLink {t : Tree} (here : t.here = []) (hdir : t.node? ["b"] = some .directory)
    {c : ByteArray} (hfile : t.node? (["b"] ++ [cacheFileName]) = some (.file c)) :
    t.locate .node behindLink = .error .notDirectory := by
  have hpieces : behindLink.pieces = ["b", cacheFileName, ".."] := by decide
  have hstart : t.startOf behindLink = [] := by
    rw [Tree.startOf, here, ite_self]
  have hne : t.node? (["b"] ++ [cacheFileName]) ≠ some .directory := by
    rw [hfile]
    exact fun h => by cases h
  rw [Tree.locate, Tree.follow_of_followable (by decide), hpieces, hstart,
    Tree.resolve_named (by decide) (by decide) t.node?_nil, List.nil_append, hdir]
  show t.resolve .node Tree.linkLimit ["b"] [cacheFileName, ".."] = _
  rw [Tree.resolve_named (by decide) (by decide) hdir, hfile]
  show t.resolve .node Tree.linkLimit (["b"] ++ [cacheFileName]) [".."] = _
  rw [Tree.resolve_cons, Tree.turn_of_not_directory hne]
  rfl

/-- A run whose build root is reached through the cache file succeeds, since the cache is written last,
but it cannot be repeated: its own cache file is in the way. -/
theorem configure_not_again :
    linkedProject.WellFormed ∧
      ∃ made w₁, runIn behindLink ⟨linkedProject, [], []⟩ = .ok made w₁ ∧
        (∃ found, World.detect idleRunner (some "cl") w₁ = .ok ⟨made.identity⟩ found) ∧
        ∀ made' w₂, runIn behindLink w₁ ≠ .ok made' w₂ := by
  obtain ⟨made, w₁, first, hidentity, wf, ⟨c, hfile⟩, here, houtside⟩ :=
    exists_runIn (w := ⟨linkedProject, [], []⟩) provided_linkedProject
  refine ⟨wellFormed_linkedProject, made, w₁, first, ?_, fun made' w₂ again => ?_⟩
  · rw [hidentity]
    exact detect_idleRunner w₁
  · have hdir : w₁.tree.node? ["b"] = some .directory := by
      rw [houtside ["b"] fun name h => by cases h]
      exact directory_linkedProject
    have hlost := locate_behindLink (here.trans (by rfl)) hdir hfile
    obtain ⟨start, -, -⟩ := configure_eq_ok_iff.1 again
    obtain ⟨hroot, hensure, -⟩ := opened_of_start start
    rw [hroot, buildRoot_runIn] at hensure
    have hblocked := (Tree.grows_ensureDirectory hensure).1.keeps.locate_error wf (fun h => by cases h)
      hlost
    rcases Tree.reaches_of_ensureDirectory hensure with hempty | hreaches
    · exact absurd hempty (by decide)
    · obtain ⟨location, node, hfind⟩ := Tree.reaches_iff.1 hreaches
      rw [Tree.find?_eq_some_iff, hblocked] at hfind
      cases hfind

end BuildMatrix
