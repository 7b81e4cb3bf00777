import BuildMatrix.Proofs.Configure.Progress
import BuildMatrix.Proofs.Session.Interruption
import BuildMatrix.Proofs.Variant.Plan

/-!
# Runs whose graph is refused

A run reports an inconsistent graph for one reason only: the emitter has refused what the
run has found out.  Finding the compiler, probing it, searching for sources and writing
files fail in other ways (`start_error`, `Failure.IsWrite`), and the cache that is saved in
the end does not hide the refusal.  So a run is taken apart into what it *drafts*, which is
an emitter with variants and sources, and what the emitter makes of the draft
(`configure_inconsistent_iff`).

The variants of a draft are those of the matrix, and its sources have different paths,
none of which is a target unless it is a generated file.  What is left to go wrong are
the three cases of the emitter: stems that are shared, a stem that is taken, and generated
files among the sources.

The first case does occur.  Objects are named after their sources without the extensions,
so a source of each language with one stem cannot be configured with a compiler that
does both languages (`configure_refuses_twins`).
-/

namespace BuildMatrix

open BuildMatrix.Task (FailsOnly)

/-! ## What fails for other reasons -/

theorem failsOnly_write (ninja help : Path) (build list : String) :
    FailsOnly Failure.IsWrite (do
      World.onTree (Tree.replaceText ninja build)
      World.tell ("Generated " ++ ninja.text)
      World.onTree (Tree.replaceText help list)) :=
  .bind (failsOnly_onTree _) fun _ => .bind (.of_modify _) fun _ => failsOnly_onTree _

theorem not_isWrite_inconsistent (error : GraphError) : ¬ (Failure.inconsistent error).IsWrite := by
  rintro ⟨failure, ⟨⟩⟩

/-! ## Drafts -/

variable {o : Options} {settings : Settings} {env : Environment} {host : Host} {runner : Runner}
  {w : World} {e : Emitter} {variants : VariantSet} {sources : List Source}

/-- What a run hands to the emitter: its session was opened, the plan was made, and these are the
variants of the plan and the sources that were found then. -/
inductive Drafted (o : Options) (settings : Settings) (env : Environment) (host : Host)
    (runner : Runner) (w : World) : Emitter → VariantSet → List Source → Prop
  | intro {session : Session} {opened : World} {baseline : Baseline} {variants : VariantSet}
      {planned : Probing} {sources : List Source}
      (start : Session.start o settings env runner w = .ok session opened)
      (plan : (session.prober runner).plan settings env host
        { cache := session.cache, world := opened } = .ok (baseline, variants) planned)
      (found : findSources Tree.refusal? planned.world.tree o.projectRoot settings env.scanBuild =
        .ok sources) :
      Drafted o settings env host runner w
        { toolchain := session.toolchain, baseline, settings
          buildDir := Emitter.directoryText (o.buildDirectory settings)
          launcher := selectLauncher session.toolchain host env }
        variants sources

namespace Drafted

theorem matrixNames (drafted : Drafted o settings env host runner w e variants sources) :
    MatrixNames variants := by
  obtain ⟨start, plan, found⟩ := drafted
  obtain ⟨checks, carried⟩ := carryOut_eq_ok_iff.1 plan
  have hvariants := congrArg Prod.snd carried.answer.1
  rw [answer_planVariants] at hvariants
  rw [show variants = _ from hvariants]
  exact matrixNames_answer _ _ _ _ _

theorem distinct (drafted : Drafted o settings env host runner w e variants sources) :
    (sources.map (·.path)).Nodup := by
  obtain ⟨start, plan, found⟩ := drafted
  exact distinct_of_found found

theorem unmade (drafted : Drafted o settings env host runner w e variants sources) :
    ∀ s ∈ sources, Emitter.Unmade s := by
  obtain ⟨start, plan, found⟩ := drafted
  exact unmade_of_found found

/-- What the emitter makes of a draft, when it does. -/
theorem emit_succeeds (drafted : Drafted o settings env host runner w e variants sources)
    (fine : ¬ (e.SharedStem sources ∨ e.TakenStem sources ∨ e.ReadsGenerated variants sources)) :
    ∃ g, e.emit variants sources = .ok g :=
  Emitter.emit_of_fine drafted.matrixNames drafted.distinct drafted.unmade fine

theorem emit_repeats (drafted : Drafted o settings env host runner w e variants sources)
    (repeats : e.SharedStem sources ∨ e.TakenStem sources) :
    ∃ target, e.emit variants sources = .error (.duplicateTarget target) :=
  Emitter.emit_repeats drafted.matrixNames drafted.distinct repeats

end Drafted

/-! ## Refusals -/

theorem configureWork_of_refused {p : Prober} {s planned : Probing} {baseline : Baseline}
    {error : GraphError} (plan : p.plan settings env host s = .ok (baseline, variants) planned)
    (found : findSources Tree.refusal? planned.world.tree o.projectRoot settings env.scanBuild =
      .ok sources)
    (refused : graphOf p.toolchain baseline settings (o.buildDirectory settings)
      (selectLauncher p.toolchain host env) variants sources = .error error) :
    configureWork o settings env host p s = .error (.inconsistent error) planned := by
  unfold configureWork
  refine (Task.bind_of_ok plan).trans ?_
  dsimp only
  rw [Task.get_bind, found]
  dsimp only
  rw [refused]
  rfl

theorem refused_of_configureWork {p : Prober} {s s' : Probing} {error : GraphError}
    (h : configureWork o settings env host p s = .error (.inconsistent error) s') :
    ∃ baseline variants planned sources,
      p.plan settings env host s = .ok (baseline, variants) planned ∧
      findSources Tree.refusal? planned.world.tree o.projectRoot settings env.scanBuild =
        .ok sources ∧
      graphOf p.toolchain baseline settings (o.buildDirectory settings)
        (selectLauncher p.toolchain host env) variants sources = .error error := by
  unfold configureWork at h
  rcases Task.bind_eq_error.1 h with h | ⟨⟨baseline, variants⟩, planned, plan, h⟩
  · exact absurd (failsOnly_carryOut _ _ _ _ _ h) (not_isWrite_inconsistent error)
  dsimp only at h
  rw [Task.get_bind] at h
  cases found : findSources Tree.refusal? planned.world.tree o.projectRoot settings env.scanBuild with
  | error failure =>
    rw [found] at h
    cases h
  | ok sources =>
  refine ⟨baseline, variants, planned, sources, plan, found, ?_⟩
  rw [found] at h
  dsimp only at h
  cases hgraph : graphOf p.toolchain baseline settings (o.buildDirectory settings)
      (selectLauncher p.toolchain host env) variants sources with
  | error refusal =>
    rw [hgraph] at h
    injection h with h _
    injection h with h
    rw [h]
  | ok graph =>
    rw [hgraph] at h
    -- what is left writes files, and the refusal is no failure of these
    dsimp only at h
    rw [Task.get_bind] at h
    rcases Task.bind_eq_error.1 h with h | ⟨_, _, -, h⟩
    · exact absurd (FailsOnly.of_within (failsOnly_write _ _ _ _) _ _ _ h)
        (not_isWrite_inconsistent error)
    · cases h

/-- A run reports an inconsistent graph if and only if the emitter refuses the draft. -/
theorem configure_inconsistent_iff {error : GraphError} :
    (∃ w', configure o settings env host runner w = .error (.inconsistent error) w') ↔
      ∃ e variants sources, Drafted o settings env host runner w e variants sources ∧
        e.emit variants sources = .error error := by
  constructor
  · rintro ⟨w', h⟩
    rcases Task.bind_eq_error.1 h with h | ⟨session, opened, start, h⟩
    · rcases start_error h with ⟨⟨name, ⟨⟩⟩, -⟩ | hwrite
      exact absurd hwrite (not_isWrite_inconsistent error)
    rw [Episode.run_eq] at h
    split at h
    · cases h
    next failure s' hensuring =>
    injection h with hfailure _
    rw [hfailure] at hensuring
    rcases Task.cases_of_ensuring_eq_error hensuring with ⟨u, hwork⟩ | ⟨u, hsave⟩
    · obtain ⟨baseline, variants, planned, sources, plan, found, refused⟩ :=
        refused_of_configureWork hwork
      exact ⟨_, _, _, .intro start plan found, refused⟩
    · exact absurd (failsOnly_saveCache _ _ _ _ hsave) (not_isWrite_inconsistent error)
  · rintro ⟨_, _, _, ⟨start, plan, found⟩, refused⟩
    have hwork := configureWork_of_refused plan found refused
    exact ⟨_, (Task.bind_of_ok start).trans (Episode.run_of_failed hwork)⟩

/-- A run has one draft at most. -/
theorem Drafted.unique {e' : Emitter} {variants' : VariantSet} {sources' : List Source}
    (drafted : Drafted o settings env host runner w e variants sources)
    (drafted' : Drafted o settings env host runner w e' variants' sources') :
    e = e' ∧ variants = variants' ∧ sources = sources' := by
  obtain ⟨start, plan, found⟩ := drafted
  obtain ⟨start', plan', found'⟩ := drafted'
  rw [start] at start'
  injection start' with hsession hopened
  subst hsession hopened
  rw [plan] at plan'
  injection plan' with hmade hplanned
  injection hmade with hbaseline hvariants
  subst hbaseline hvariants hplanned
  rw [found] at found'
  injection found' with hsources
  exact ⟨rfl, rfl, hsources⟩

/-- Different sources that are compiled have different objects, if no stem is shared. -/
theorem Emitter.objectTarget_ne (apart : ¬ e.SharedStem sources) {v : String}
    (hv : v ∈ variantNames) {s s' : Source} (hs : s ∈ sources) (hs' : s' ∈ sources)
    (hsc : e.compilable s = true) (hsc' : e.compilable s' = true) (hne : s ≠ s') :
    e.objectTarget v s ≠ e.objectTarget v s' := by
  rw [objectTarget_eq, objectTarget_eq]
  intro h
  exact apart ⟨s, hs, s', hs', hne, hsc, hsc', object_inj.1 ((inside_inj hv hv).1 h).2⟩

/-- A run reports an inconsistent graph only if two of its sources that are compiled have the same stem,
or one has the stem of the generated file, or is the generated file of a variant.  In these cases it
does, and in the first two for a repeated target.  Without them the emitter gives a graph.  When it
does, the run reports no inconsistent graph, and different sources that are compiled for a variant
have different objects. -/
theorem configure_inconsistent_only (o : Options) (settings : Settings) (env : Environment)
    (host : Host) (runner : Runner) (w : World) :
    (∀ error w', configure o settings env host runner w = .error (.inconsistent error) w' →
      ∃ e variants sources, Drafted o settings env host runner w e variants sources ∧
        e.emit variants sources = .error error ∧
        (e.SharedStem sources ∨ e.TakenStem sources ∨ e.ReadsGenerated variants sources)) ∧
    ∀ e variants sources, Drafted o settings env host runner w e variants sources →
      (e.SharedStem sources ∨ e.TakenStem sources → ∃ target w',
        configure o settings env host runner w = .error (.inconsistent (.duplicateTarget target)) w') ∧
      (e.ReadsGenerated variants sources → ∃ error w',
        configure o settings env host runner w = .error (.inconsistent error) w') ∧
      (¬ (e.SharedStem sources ∨ e.TakenStem sources ∨ e.ReadsGenerated variants sources) →
        ∃ g, e.emit variants sources = .ok g) ∧
      ∀ g, e.emit variants sources = .ok g →
        (∀ error w', configure o settings env host runner w ≠ .error (.inconsistent error) w') ∧
        ∀ v ∈ variants.toList, ∀ s ∈ sources, ∀ s' ∈ sources, e.compilable s = true →
          e.compilable s' = true → s ≠ s' → e.objectTarget v.name s ≠ e.objectTarget v.name s' := by
  refine ⟨fun error w' h => ?_, fun e variants sources drafted =>
    ⟨fun repeats => ?_, fun reads => ?_, drafted.emit_succeeds,
      fun g hemit => ⟨fun error w' h => ?_, ?_⟩⟩⟩
  · obtain ⟨e, variants, sources, drafted, refused⟩ := configure_inconsistent_iff.1 ⟨w', h⟩
    refine ⟨e, variants, sources, drafted, refused, ?_⟩
    by_contra fine
    obtain ⟨g, hemit⟩ := drafted.emit_succeeds fine
    rw [refused] at hemit
    cases hemit
  · obtain ⟨target, refused⟩ := drafted.emit_repeats repeats
    obtain ⟨w', h⟩ := configure_inconsistent_iff.2 ⟨e, variants, sources, drafted, refused⟩
    exact ⟨target, w', h⟩
  · obtain ⟨error, refused⟩ := Emitter.emit_refuses reads
    obtain ⟨w', h⟩ := configure_inconsistent_iff.2 ⟨e, variants, sources, drafted, refused⟩
    exact ⟨error, w', h⟩
  · obtain ⟨e', variants', sources', drafted', refused⟩ := configure_inconsistent_iff.1 ⟨w', h⟩
    obtain ⟨rfl, rfl, rfl⟩ := drafted.unique drafted'
    rw [hemit] at refused
    cases refused
  · intro v hv s hs s' hs'
    refine Emitter.objectTarget_ne (fun shared => ?_)
      (Emitter.name_mem_variantNames drafted.matrixNames hv) hs hs'
    obtain ⟨target, refused⟩ := drafted.emit_repeats (.inl shared)
    rw [hemit] at refused
    cases refused

/-! ## Sources with one stem -/

/-- A project with a build root and a source of each language with one stem. -/
def twinProject : Tree :=
  ((bareProject.put ["s"] .directory).put ["s", "a.c"] (.file .empty)).put ["s", "a.cxx"]
    (.file .empty)

/-- The sources of the project. -/
def twinSources : List Source := [⟨"s/a.c", .c, false, false⟩, ⟨"s/a.cxx", .cxx, false, false⟩]

/-- What is asked of a run with a compiler. -/
def twinOptions (cc : String) : Options := { buildDir := some ⟨"b"⟩, cc := some cc, noCache := true }

theorem buildRoot_twinOptions (cc : String) (settings : Settings) :
    (twinOptions cc).buildRoot settings = ⟨"b"⟩ := by
  show Path.join ⟨""⟩ ⟨"b"⟩ = _
  decide

/-- The settings of the project. -/
def twinSettings : Settings := { sourceDirs := [⟨"s"⟩] }

/-- A directory in the working directory is found under its name. -/
theorem find?_directory {t : Tree} {name : String}
    (hname : Plain name ∧ ¬ Tree.nameLimit < name.utf8ByteSize ∧ Tree.Followable ⟨name⟩)
    (here : t.here = []) (h : t.node? [name] = some .directory) :
    t.find? ⟨name⟩ = some ([name], .directory) := by
  obtain ⟨plain, short, followable⟩ := hname
  have hpieces : (Path.mk name).pieces = [] ++ [name] := by
    rw [Path.pieces, Text.pieces, List.splitOn_eq_singleton plain.single, List.map_singleton,
      String.ofList_toList]
    rfl
  have entry : Tree.EntryAt t ⟨name⟩ [] [] name := by
    refine ⟨⟨hpieces, plain⟩, short, followable, ?_⟩
    rw [Tree.resolve_nil, Tree.startOf, here, ite_self, t.node?_nil]
  rw [Tree.find?_eq_some_iff, entry.locate (.inr fun target hlink => by
    rw [List.nil_append, h] at hlink; cases hlink), Tree.placeOf_of_node h]
  rfl

theorem node?_build_twinProject (name : String) : twinProject.node? (["b"] ++ [name]) = none := by
  have hne : ∀ rest, ["b"] ++ [name] ≠ "s" :: rest := fun rest h => by
    injection h with h _
    exact absurd h (by decide)
  rw [twinProject, Tree.node?_put_of_ne (List.cons_ne_nil _ _) _ (hne _),
    Tree.node?_put_of_ne (List.cons_ne_nil _ _) _ (hne _),
    Tree.node?_put_of_ne (List.cons_ne_nil _ _) _ (hne _)]
  exact node?_bareProject name

theorem wellFormed_twinProject : twinProject.WellFormed := by
  have fits : bareProject.Fits ["s"] := ⟨by decide, rfl, by decide⟩
  have fits₁ : (bareProject.put ["s"] .directory).Fits ["s", "a.c"] :=
    ⟨by decide, by decide, by decide⟩
  have fits₂ : ((bareProject.put ["s"] .directory).put ["s", "a.c"] (.file .empty)).Fits
      ["s", "a.cxx"] := ⟨by decide, by decide, by decide⟩
  exact fits₂.wellFormed (fits₁.wellFormed (fits.wellFormed room_bareProject.wf _) _) _

theorem room_twinProject : Room ⟨"b"⟩ ["b"] twinProject :=
  ⟨wellFormed_twinProject, .inl (find?_directory (by decide) rfl (by decide))⟩

theorem clear_twinProject {name : String}
    (h : name ∈ [sourceName, "build.ninja", "help", cacheFileName]) :
    Clear ⟨"b"⟩ ["b"] twinProject name := by
  have hnames : ∀ name ∈ [sourceName, "build.ninja", "help", cacheFileName],
      Plain name ∧ ¬ Tree.nameLimit < name.utf8ByteSize ∧
        Tree.Followable (Path.child ⟨"b"⟩ name) ∧ twinProject.Roomy (Path.child ⟨"b"⟩ name) := by
    decide
  exact clear_of_vacant (hnames name h) (node?_build_twinProject name)

/-- The sources of the project are found, with or without the program for probing. -/
theorem findSources_twinProject {u : Tree} (prepared : Prepared ["b"] twinProject u) :
    findSources Tree.refusal? u ⟨""⟩ twinSettings false = .ok twinSources := by
  have hbelow : u.below ["s"] = [(["a.c"], .file .empty), (["a.cxx"], .file .empty)] := by
    rcases prepared with rfl | rfl
    · rfl
    · rfl
  have hdirectory : u.directory? (Path.join ⟨""⟩ ⟨"s"⟩) = some ["s"] := by
    have hnode : u.node? ["s"] = some .directory := by
      rw [prepared.outside fun name h => absurd (List.cons.inj h).1 (by decide)]
      rfl
    have hfind : u.find? ⟨"s"⟩ = some (["s"], .directory) :=
      find?_directory (by decide) prepared.here hnode
    rw [show Path.join ⟨""⟩ ⟨"s"⟩ = ⟨"s"⟩ by decide, Tree.directory?, hfind]
  have hsteps : stepsBelow u ⟨""⟩ twinSettings false ⟨"s"⟩ =
      .list ⟨"s"⟩ ⟨"s"⟩ :: twinSources.map fun s => .take ⟨s.path⟩ s := by
    rw [stepsBelow_eq, hdirectory]
    dsimp only
    rw [hbelow]
    decide +kernel
  rw [findSources_single rfl hsteps]
  rfl

/-- With a compiler whose name tells its family, the project is probed and every question is answered
with no, whatever the settings are. -/
theorem exists_plan_twinOptions {cc : String} {family : Family}
    (hfamily : familyOfName? cc = some family) (settings : Settings) :
    ∃ session opened planned made,
      Session.start (twinOptions cc) settings {} idleRunner ⟨twinProject, [], []⟩ =
          .ok session opened ∧
        session.toolchain = ⟨⟨family, cc, ⟨cc⟩⟩⟩ ∧ session.buildRoot = ⟨"b"⟩ ∧
        opened.tree = twinProject ∧
        (session.prober idleRunner).plan settings {} {}
          { cache := session.cache, world := opened } = .ok made planned ∧
        made = (planVariants ⟨⟨family, cc, ⟨cc⟩⟩⟩ (session.prober idleRunner).exe settings {}
          {}).answer (fun _ => false) ∧
        Prepared ["b"] twinProject planned.world.tree := by
  have hfind : idleRunner.find? (chooseName idleRunner (some cc)) = some ⟨cc⟩ := rfl
  obtain ⟨found, hdetect⟩ := exists_detect hfind hfamily ⟨twinProject, [], []⟩
  have detected : World.detect idleRunner ((twinOptions cc).cc <|> Environment.cc {})
      ⟨twinProject, [], []⟩ = .ok ⟨⟨family, cc, ⟨cc⟩⟩⟩ found := hdetect
  obtain ⟨session, opened, checks, made, planned, start, htoolchain, hscratch, htree, carried,
    prepared⟩ := exists_planned {} (buildRoot_twinOptions cc settings) detected room_twinProject
      (clear_twinProject List.mem_cons_self)
  have hcache : session.cache = Cache.empty session.toolchain.identity.cacheKey :=
    (opened_of_start start).cache.trans (if_pos rfl)
  have hmade := (carried.steady (fun _ _ => rfl) (hcache ▸ .empty _)).2
  exact ⟨session, opened, planned, made, start, htoolchain, hscratch, htree,
    carryOut_eq_ok_iff.2 ⟨checks, carried⟩, htoolchain ▸ hmade, prepared⟩

/-- With the settings of the project its sources are found as well. -/
theorem exists_plan_twinProject {cc : String} {family : Family}
    (hfamily : familyOfName? cc = some family) :
    ∃ session opened planned made,
      Session.start (twinOptions cc) twinSettings {} idleRunner ⟨twinProject, [], []⟩ =
          .ok session opened ∧
        session.toolchain = ⟨⟨family, cc, ⟨cc⟩⟩⟩ ∧ session.buildRoot = ⟨"b"⟩ ∧
        (session.prober idleRunner).plan twinSettings {} {}
          { cache := session.cache, world := opened } = .ok made planned ∧
        made = (planVariants ⟨⟨family, cc, ⟨cc⟩⟩⟩ (session.prober idleRunner).exe twinSettings {}
          {}).answer (fun _ => false) ∧
        Prepared ["b"] twinProject planned.world.tree ∧
        findSources Tree.refusal? planned.world.tree (twinOptions cc).projectRoot twinSettings
          (Environment.scanBuild {}) = .ok twinSources := by
  obtain ⟨session, opened, planned, made, start, htoolchain, hscratch, -, plan, hmade, prepared⟩ :=
    exists_plan_twinOptions hfamily twinSettings
  exact ⟨session, opened, planned, made, start, htoolchain, hscratch, plan, hmade, prepared,
    findSources_twinProject prepared⟩

/-- The project cannot be configured with a compiler that does both languages, though the compiler is
found and every file is written: the two sources have one object. -/
theorem configure_refuses_twins :
    twinProject.WellFormed ∧ ∃ target w',
      configure (twinOptions "cl") twinSettings {} {} idleRunner ⟨twinProject, [], []⟩ =
          .error (.inconsistent (.duplicateTarget target)) w' ∧
        ∃ c, w'.tree.node? ["b", cacheFileName] = some (.file c) := by
  refine ⟨wellFormed_twinProject, ?_⟩
  have hfamily : familyOfName? "cl" = some .msvc := by decide +kernel
  obtain ⟨session, opened, planned, ⟨baseline, variants⟩, start, htoolchain, hroot, plan, hmade,
    prepared, hfound⟩ := exists_plan_twinProject hfamily
  have hcxx : baseline.supportsCxx = true := congrArg (fun made => made.1.supportsCxx) hmade
  have drafted := Drafted.intro start plan hfound
  -- both sources are compiled
  obtain ⟨target, refused⟩ := drafted.emit_repeats (.inl ⟨_, List.mem_cons_self, _,
    List.mem_cons_of_mem _ List.mem_cons_self, by decide, rfl, hcxx, by decide +kernel⟩)
  have hwork := configureWork_of_refused (o := twinOptions "cl") (p := session.prober idleRunner) plan
    hfound refused
  -- and the cache is saved
  have room : Room session.buildRoot ["b"] planned.world.tree := by
    rw [hroot]
    exact prepared.room room_twinProject (clear_twinProject (by decide))
  have cache : Clear session.buildRoot ["b"] planned.world.tree cacheFileName := by
    rw [hroot]
    exact prepared.clear (clear_twinProject (by decide))
  have saved : ∃ s', Session.saveCache session.cachePath planned = .ok () s' ∧ s'.world.tree =
      planned.world.tree.put (["b"] ++ [cacheFileName])
        (.file planned.cache.toFile.render.toUTF8) :=
    ⟨_, saveCache_eq_ok.2 ⟨_, cache.replaceText room _, rfl⟩, rfl⟩
  obtain ⟨s', hsave, htree⟩ := saved
  have hrun : configure (twinOptions "cl") twinSettings {} {} idleRunner ⟨twinProject, [], []⟩ =
      .error (.inconsistent (.duplicateTarget target)) s'.world := by
    unfold configure
    rw [Task.bind_of_ok start, Episode.run_eq, Task.ensuring_of_error hwork hsave]
  exact ⟨target, s'.world, hrun, _, htree ▸ Tree.node?_put_self (List.concat_ne_nil _ _) _⟩

/-- Of the sources only those that are compiled need different stems. -/
theorem Emitter.fine_of_c (hcxx : e.baseline.supportsCxx = false) {buildDir : String}
    (hdir : e.buildDir = buildDir)
    (stems : ∀ s ∈ sources, ∀ s' ∈ sources, s.language = .c → s'.language = .c →
      s.stem = s'.stem → s = s')
    (foreign : ∀ s ∈ sources, s.stem ≠ registrationStem ∧
      s.path.toList.head? ≠ (buildDir ++ "/").toList.head?) :
    ¬ (e.SharedStem sources ∨ e.TakenStem sources ∨ e.ReadsGenerated variants sources) := by
  rw [← hdir] at foreign
  refine fine_of_foreign (fun s hs s' hs' hsc hsc' => ?_) foreign
  simp only [compilable, hcxx, Bool.or_false, decide_eq_true_eq] at hsc hsc'
  exact stems s hs s' hs' hsc hsc'

/-- With a compiler that does one of the languages the same project gives a graph. -/
theorem configure_accepts_twins :
    ∃ e variants, Drafted (twinOptions "cproc") twinSettings {} {} idleRunner ⟨twinProject, [], []⟩
        e variants twinSources ∧
      (∃ g, e.emit variants twinSources = .ok g) ∧ ∀ error w',
        configure (twinOptions "cproc") twinSettings {} {} idleRunner ⟨twinProject, [], []⟩ ≠
          .error (.inconsistent error) w' := by
  have hfamily : familyOfName? "cproc" = some .cproc := by decide +kernel
  obtain ⟨session, opened, planned, ⟨baseline, variants⟩, start, htoolchain, hroot, plan, hmade,
    -, hfound⟩ := exists_plan_twinProject hfamily
  have hcxx : baseline.supportsCxx = false := congrArg (fun made => made.1.supportsCxx) hmade
  have drafted := Drafted.intro start plan hfound
  obtain ⟨-, -, succeeds, sound⟩ := (configure_inconsistent_only (twinOptions "cproc") twinSettings {} {}
    idleRunner ⟨twinProject, [], []⟩).2 _ _ _ drafted
  have hdir : Emitter.directoryText ((twinOptions "cproc").buildDirectory twinSettings) = "b" := by
    decide +kernel
  have stems : ∀ s ∈ twinSources, ∀ s' ∈ twinSources, s.language = .c → s'.language = .c →
      s.stem = s'.stem → s = s' := by
    decide +kernel
  have foreign : ∀ s ∈ twinSources, s.stem ≠ registrationStem ∧
      s.path.toList.head? ≠ ("b" ++ "/").toList.head? := by
    decide +kernel
  obtain ⟨g, hemit⟩ := succeeds (Emitter.fine_of_c hcxx hdir stems foreign)
  exact ⟨_, variants, drafted, ⟨g, hemit⟩, (sound g hemit).1⟩

end BuildMatrix
