import BuildMatrix.Proofs.Emission.Places
import BuildMatrix.Proofs.Ninja.Splitting

/-!
# Build lines are read back

In a build file the line of each edge is split by its executor.  The rules of edges are single words,
and no path is empty.  So an edge is read back, with its target, its rule and its inputs, exactly if its
paths are whole.

What is made inside the directory of a variant is put together from the build directory, the names of
variants, which are whole, and the stems of sources.  So all edges are read back if the build directory
and the paths of the sources that are compiled are whole, and otherwise one is lost
(`buildLines_of_emit`).  Spaces, colons and dollar signs are welcome in all of them
(`buildLines_of_spaced`), a bar is not (`buildLine_of_barred`).
-/

namespace BuildMatrix

open Ninja (ReadsBack Whole Word whole_append)

/-- The stem of a source is a part of its path. -/
theorem Source.whole_stem {s : Source} (whole : Whole s.path) : Whole s.stem := by
  obtain ⟨extension, hpath, -⟩ := s.exists_extension
  exact (whole_append.1 (hpath ▸ whole)).1

namespace Emitter

variable {e : Emitter} {variants : VariantSet} {sources : List Source} {g : Graph} {edge : Edge}
  {path : String}

/-! ## Rules are words, and no path is empty -/

theorem word_of_mem_rules {r : Rule} (hr : r ∈ e.rules) : Word r.name := by
  unfold rules at hr
  simp only [List.mem_append, List.mem_cons, List.not_mem_nil, or_false] at hr
  rcases hr with ((rfl | rfl) | hr) | rfl
  · exact show Word runRuleName by decide
  · rw [name_compileRule]
    decide
  · split at hr
    · rw [List.mem_singleton.1 hr]
      exact show Word generateRuleName by decide
    · cases hr
  · rw [name_linkRule]
    decide

theorem Emitted.word_rule (emitted : e.Emitted variants sources g) (h : edge ∈ g.edges) :
    Word edge.rule := by
  by_cases hphony : edge.rule = phony
  · rw [hphony]
    decide
  · obtain ⟨r, hr, hname⟩ := emitted.declared h hphony
    rw [emitted.rules] at hr
    exact hname ▸ word_of_mem_rules hr

theorem ne_empty_of_lastLetter {c : Char} (h : lastLetter path = some c) : path ≠ "" := by
  rintro rfl
  cases h

theorem Emitted.target_ne_empty (emitted : e.Emitted variants sources g)
    (hnames : MatrixNames variants) (h : edge ∈ g.edges) : edge.target ≠ "" := by
  rw [emitted.edges] at h
  rcases letter_of_mem_targets hnames (List.mem_map_of_mem h) with ⟨-, v, -, htarget⟩ | ⟨c, -, hlast⟩
  · rw [htarget, generatedTarget_eq]
    exact inside_ne_of_slash_not_mem (by decide)
  · exact ne_empty_of_lastLetter hlast

/-- An input of an edge is made by an edge, or it is a source that is compiled. -/
theorem Emitted.input_cases (emitted : e.Emitted variants sources g) (hnames : MatrixNames variants)
    (h : edge ∈ g.edges) (hinput : path ∈ edge.inputs) :
    (∃ f ∈ g.edges, f.target = path) ∨
      ∃ s ∈ sources, e.compilable s = true ∧ s.path = path := by
  rw [emitted.edges] at h ⊢
  refine ((staged_allEdges hnames).made_or_file h hinput).imp_right ?_
  rintro ⟨-, hfile⟩
  obtain ⟨s, hs, hpath⟩ := List.mem_map.1 hfile
  exact ⟨s, (List.mem_filter.1 hs).1, (List.mem_filter.1 hs).2, hpath⟩

theorem Emitted.input_ne_empty (emitted : e.Emitted variants sources g)
    (hnames : MatrixNames variants) (unmade : ∀ s ∈ sources, Unmade s) (h : edge ∈ g.edges)
    (hinput : path ∈ edge.inputs) : path ≠ "" := by
  rcases emitted.input_cases hnames h hinput with ⟨f, hf, rfl⟩ | ⟨s, hs, -, rfl⟩
  · exact emitted.target_ne_empty hnames hf
  · obtain ⟨c, -, hlast⟩ := unmade s hs
    exact ne_empty_of_lastLetter hlast

/-! ## Whole paths -/

theorem whole_of_mem_variantNames {name : String} (h : name ∈ variantNames) :
    Whole name ∧ Whole (runTarget name) := by
  have others : Ninja.unread.all (fun c => !nameLetters.contains c) = true := by decide
  have whole : Whole name := fun c hc =>
    not_mem_of_mem_variantNames h (by simpa using List.all_eq_true.1 others c hc)
  exact ⟨whole, whole_append.2 ⟨by decide, whole⟩⟩

theorem whole_of_mem_aggregateNames : ∀ name ∈ aggregateNames, Whole name := by decide

theorem whole_inside {v rest : String} (hv : v ∈ variantNames) :
    Whole (e.inside v rest) ↔ Whole e.buildDir ∧ Whole rest := by
  have slash : Whole "/" := by decide
  rw [inside, whole_append, whole_append, whole_append, whole_append]
  exact ⟨fun h => ⟨h.1, h.2.2.2.2⟩,
    fun h => ⟨h.1, slash, (whole_of_mem_variantNames hv).1, slash, h.2⟩⟩

/-- What is made inside the directory of a variant is whole if the sources are. -/
theorem whole_below (whole : ∀ s ∈ sources, e.compilable s = true → Whole s.path) :
    ∀ path ∈ e.below sources, Whole path := by
  have hobject : ∀ stem, Whole stem → Whole ("objs/" ++ (stem ++ e.toolchain.objectExtension)) := by
    intro stem hstem
    rw [whole_append, whole_append]
    refine ⟨by decide, hstem, ?_⟩
    rcases objectExtension_cases e.toolchain with hext | hext <;> rw [hext] <;> decide
  have hrunner : Whole ("runner" ++ e.toolchain.exeExtension) := by
    rcases exeExtension_cases e.toolchain with hext | hext <;> rw [hext] <;> decide
  intro path hpath
  unfold below at hpath
  rcases List.mem_append.1 hpath with hpath | hpath
  · rcases List.mem_append.1 hpath with hpath | hpath
    · obtain ⟨s, hs, rfl⟩ := List.mem_map.1 hpath
      obtain ⟨hs, hsc⟩ := List.mem_filter.1 hs
      exact hobject s.stem (Source.whole_stem (whole s hs hsc))
    · split at hpath
      · rcases List.mem_cons.1 hpath with rfl | hpath
        · decide
        · rw [List.mem_singleton.1 hpath]
          exact hobject registrationStem (by decide)
      · cases hpath
  · rw [List.mem_singleton.1 hpath]
    exact hrunner

theorem Emitted.whole_target (emitted : e.Emitted variants sources g) (hnames : MatrixNames variants)
    (dir : Whole e.buildDir) (whole : ∀ s ∈ sources, e.compilable s = true → Whole s.path)
    (h : edge ∈ g.edges) : Whole edge.target := by
  rw [emitted.edges] at h
  have htarget := List.mem_map_of_mem (f := Edge.target) h
  rw [targets_allEdges] at htarget
  rcases List.mem_append.1 htarget with htarget | htarget
  · obtain ⟨v, hv, htarget⟩ := List.mem_flatMap.1 htarget
    have hname := name_mem_variantNames hnames hv
    rw [targets_variantEdges] at htarget
    rcases List.mem_append.1 htarget with htarget | htarget
    · obtain ⟨rest, hrest, hinside⟩ := List.mem_map.1 htarget
      rw [← hinside, whole_inside hname]
      exact ⟨dir, whole_below whole rest hrest⟩
    · obtain ⟨hbare, hrun⟩ := whole_of_mem_variantNames hname
      rcases List.mem_cons.1 htarget with htarget | htarget
      · exact htarget ▸ hbare
      · exact List.mem_singleton.1 htarget ▸ hrun
  · exact whole_of_mem_aggregateNames _ (mem_aggregateNames_of_mem htarget)

/-- All paths of a graph are whole if and only if those are that they are put together from. -/
theorem Emitted.whole_paths_iff (emitted : e.Emitted variants sources g)
    (hnames : MatrixNames variants) :
    (∀ edge ∈ g.edges, ∀ path ∈ edge.target :: edge.inputs, Whole path) ↔
      Whole e.buildDir ∧ ∀ s ∈ sources, e.compilable s = true → Whole s.path := by
  constructor
  · intro whole
    obtain ⟨v, hv, -⟩ := List.mem_map.1 (hnames.own ▸ hnames.default)
    refine ⟨?_, fun s hs hsc => ?_⟩
    · have hrunner := whole _ (emitted.mem_of_mem_variantEdges hv linkEdge_mem) _ List.mem_cons_self
      rw [linkEdge, runnerTarget_eq, whole_inside (name_mem_variantNames hnames hv)] at hrunner
      exact hrunner.1
    · exact whole _ (emitted.mem_of_mem_variantEdges hv (compileEdge_mem hs hsc)) _
        (List.mem_cons_of_mem _ List.mem_cons_self)
  · rintro ⟨dir, whole⟩ edge h path hpath
    rcases List.mem_cons.1 hpath with rfl | hpath
    · exact emitted.whole_target hnames dir whole h
    rcases emitted.input_cases hnames h hpath with ⟨f, hf, rfl⟩ | ⟨s, hs, hsc, rfl⟩
    · exact emitted.whole_target hnames dir whole hf
    · exact whole s hs hsc

/-! ## Reading back -/

theorem Emitted.readsBack_iff (emitted : e.Emitted variants sources g) (hnames : MatrixNames variants)
    (unmade : ∀ s ∈ sources, Unmade s) (h : edge ∈ g.edges) :
    ReadsBack (Ninja.render g) edge ↔ ∀ path ∈ edge.target :: edge.inputs, Whole path :=
  Ninja.readsBack_iff h (emitted.word_rule h) (emitted.target_ne_empty hnames h) fun _ hinput =>
    emitted.input_ne_empty hnames unmade h hinput

/-- In the build file of a project's sources, an edge is read back from its line if and only if its
paths are whole.  All edges are, if and only if the build directory is whole and so are the paths of the
sources that are compiled. -/
theorem buildLines_of_emit (e : Emitter) (tc : Toolchain) (b : Baseline) (host : Host)
    (settings : Settings) (verdict : FlagSet → Bool) {variants : VariantSet}
    (matrix : variants = (buildMatrix tc b host settings).answer verdict) (t : Tree) (root : Path)
    (scanBuild : Bool) {g : Graph}
    (h : e.emit variants (collectSources t root e.settings scanBuild) = .ok g) :
    (∀ edge ∈ g.edges, ReadsBack (Ninja.render g) edge ↔
      ∀ path ∈ edge.target :: edge.inputs, Whole path) ∧
    ((∀ edge ∈ g.edges, ReadsBack (Ninja.render g) edge) ↔
      Whole e.buildDir ∧ ∀ s ∈ collectSources t root e.settings scanBuild,
        e.compilable s = true → Whole s.path) := by
  have hnames : MatrixNames variants := matrix ▸ matrixNames_answer tc b host settings verdict
  obtain ⟨emitted, -⟩ := emitted_of_emit h
  have each : ∀ edge ∈ g.edges, ReadsBack (Ninja.render g) edge ↔
      ∀ path ∈ edge.target :: edge.inputs, Whole path := fun edge hedge =>
    emitted.readsBack_iff hnames (fun s hs => unmade_collectSources hs) hedge
  refine ⟨each, ?_⟩
  rw [← emitted.whole_paths_iff hnames]
  exact forall₂_congr each

/-! ## A project of one file -/

/-- A directory that holds one file of this name. -/
def singleTree (name : String) : Tree :=
  (Tree.empty.put ["s"] .directory).put ["s", name] (.file .empty)

/-- The emitter of the project. -/
def singleEmitter : Emitter := { smallEmitter with settings := { sourceDirs := [⟨"s"⟩] } }

/-- The source that the file is. -/
def singleSource (name : String) : Source := ⟨"s/" ++ name, .c, false, false⟩

/-- A file name with all that is escaped, and one with a bar. -/
def singleNames : List String := ["$ a:b$$ :.c", "a|b.c"]

theorem filesBelow_singleTree (name : String) : filesBelow (singleTree name) ⟨""⟩ ⟨"s"⟩ =
    [⟨(Path.child ⟨"s"⟩ name).relativeTo ⟨""⟩, name, .empty⟩] := by
  have hdirectory : (singleTree name).directory? (Path.join ⟨""⟩ ⟨"s"⟩) = some ["s"] :=
    Tree.directory?_of_steps (by decide) rfl (by decide) (by decide) (by decide) rfl
  have hbelow : (singleTree name).below ["s"] = [([name], .file .empty)] := rfl
  rw [filesBelow, hdirectory]
  dsimp only
  rw [hbelow]
  rfl

theorem collectSources_singleTree : ∀ name ∈ singleNames,
    collectSources (singleTree name) ⟨""⟩ singleEmitter.settings false = [singleSource name] := by
  have hsource : ∀ name ∈ singleNames,
      [Found.mk ((Path.child ⟨"s"⟩ name).relativeTo ⟨""⟩) name .empty].filterMap
        (·.source? singleEmitter.settings false) = [singleSource name] := by decide +kernel
  intro name hname
  rw [collectSources, show singleEmitter.settings.sourceDirs = [⟨"s"⟩] from rfl,
    List.flatMap_singleton, filesBelow_singleTree, hsource name hname]
  rfl

theorem exists_graph_singleTree {name : String} (hname : name ∈ singleNames) :
    ∃ g, singleEmitter.emit ((buildMatrix singleEmitter.toolchain {} {} {}).answer fun _ => true)
      (collectSources (singleTree name) ⟨""⟩ singleEmitter.settings false) = .ok g := by
  have stems : ∀ name ∈ singleNames, (singleEmitter.stems [singleSource name]).Nodup := by
    decide
  have outside : ∀ name ∈ singleNames, ∀ s ∈ [singleSource name],
      s.path.toList.head? ≠ (singleEmitter.buildDir ++ "/").toList.head? := by decide
  rw [collectSources_singleTree name hname]
  refine emit_outside (matrixNames_answer singleEmitter.toolchain {} {} {} fun _ => true)
    (List.nodup_singleton _) (fun s hs => ?_) (stems name hname) (outside name hname)
  exact unmade_collectSources ((collectSources_singleTree name hname).symm ▸ hs)

/-- A file name with spaces, colons and dollar signs, at its ends and next to each other, does no
harm. -/
theorem buildLines_of_spaced :
    ∃ g, singleEmitter.emit ((buildMatrix singleEmitter.toolchain {} {} {}).answer fun _ => true)
        (collectSources (singleTree "$ a:b$$ :.c") ⟨""⟩ singleEmitter.settings false) = .ok g ∧
      ∀ edge ∈ g.edges, ReadsBack (Ninja.render g) edge := by
  have hname : "$ a:b$$ :.c" ∈ singleNames := by decide
  obtain ⟨g, hemit⟩ := exists_graph_singleTree hname
  refine ⟨g, hemit, (buildLines_of_emit singleEmitter singleEmitter.toolchain {} {} {} (fun _ => true)
    rfl (singleTree "$ a:b$$ :.c") ⟨""⟩ false hemit).2.2 ⟨by decide, fun s hs _ => ?_⟩⟩
  rw [collectSources_singleTree _ hname] at hs
  rw [List.mem_singleton.1 hs]
  decide

/-- Of a file name with a bar the part behind the bar is taken for another path. -/
theorem buildLine_of_barred :
    ∃ g edge, singleEmitter.emit
        ((buildMatrix singleEmitter.toolchain {} {} {}).answer fun _ => true)
        (collectSources (singleTree "a|b.c") ⟨""⟩ singleEmitter.settings false) = .ok g ∧
      edge ∈ g.edges ∧ edge.target = "out/default-debug/objs/s/a|b.o" ∧ edge.inputs = ["s/a|b.c"] ∧
      ¬ ReadsBack (Ninja.render g) edge ∧
      ∀ after, Ninja.split false [] (Ninja.buildLine edge ++ after).toList =
        some ([.path "build", .path "out/default-debug/objs/s/a", .bar, .path "b.o", .colon,
          .path "compile", .path "s/a", .bar, .path "b.c"], after.toList) := by
  have hname : "a|b.c" ∈ singleNames := by decide
  have hnames := matrixNames_answer singleEmitter.toolchain {} {} {} fun _ => true
  obtain ⟨g, hemit⟩ := exists_graph_singleTree hname
  obtain ⟨emitted, -⟩ := emitted_of_emit hemit
  obtain ⟨v, hv, hv'⟩ := List.mem_map.1 (hnames.own ▸ hnames.default)
  have hs : singleSource "a|b.c" ∈
      collectSources (singleTree "a|b.c") ⟨""⟩ singleEmitter.settings false := by
    rw [collectSources_singleTree _ hname]
    exact List.mem_singleton_self _
  have hedge := emitted.mem_of_mem_variantEdges hv (compileEdge_mem hs rfl)
  have htarget : singleEmitter.objectTarget v.name (singleSource "a|b.c") =
      "out/default-debug/objs/s/a|b.o" := by
    rw [hv']
    decide +kernel
  refine ⟨g, _, hemit, hedge, htarget, rfl, fun reads => ?_, fun after => ?_⟩
  · have whole := (emitted.readsBack_iff hnames (fun s hs => unmade_collectSources hs) hedge).1 reads
    exact absurd (whole "s/a|b.c" (List.mem_cons_of_mem _ List.mem_cons_self)) (by decide)
  · have hline : Ninja.buildLine (singleEmitter.compileEdge v (singleSource "a|b.c")) =
        "build out/default-debug/objs/s/a|b.o: compile s/a|b.c\n" := by
      rw [Ninja.buildLine, compileEdge, htarget]
      dsimp only
      decide +kernel
    rw [hline, String.toList_append]
    rfl

end Emitter

end BuildMatrix
