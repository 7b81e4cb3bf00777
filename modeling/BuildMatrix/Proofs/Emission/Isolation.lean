import BuildMatrix.Proofs.Emission.Success

/-!
# Variants do not feed each other

In a graph that emitting gives, everything that is made for a variant is made from the
sources and from what is made for the same variant.

The edges of a variant read sources that are compiled and paths inside the directory of
the variant (`reads_variantEdges`).  A source is no target: its last letter leaves only the
generated file of a variant, and such a source would be a cycle.  So an edge that feeds
one of a variant makes a path inside the variant's directory, and no other variant has
edges there (`Emitted.step_within`).  By going back step by step the same holds for all that
leads to the edge (`Emitted.within`).

What the runner is linked from are the objects of the stems (`linkInputs_eq`).  Since the
graph has no target twice the stems differ, and so do the objects.
-/

namespace BuildMatrix

open Relation

namespace Emitter

variable {e : Emitter} {variants : VariantSet} {sources : List Source} {v : Variant}

/-! ## What the edges of a variant read -/

/-- An input of a variant's edge is a source that is compiled, or inside the variant's directory. -/
theorem reads_variantEdges {edge : Edge} (h : edge ∈ e.variantEdges sources v) {input : String}
    (hinput : input ∈ edge.inputs) :
    input ∈ e.compiledPaths sources ∨ ∃ rest, input = e.inside v.name rest := by
  have hobject : ∀ s, ∃ rest, e.objectTarget v.name s = e.inside v.name rest :=
    fun s => ⟨_, objectTarget_eq v.name s⟩
  have hobjects : input ∈ (sources.filter e.compilable).map (e.objectTarget v.name) →
      ∃ rest, input = e.inside v.name rest := by
    intro hmem
    obtain ⟨s, -, rfl⟩ := List.mem_map.1 hmem
    exact hobject s
  unfold variantEdges at h
  rcases List.mem_append.1 h with h | h
  · rcases List.mem_append.1 h with h | h
    · obtain ⟨s, hs, rfl⟩ := List.mem_map.1 h
      rw [List.mem_singleton.1 hinput]
      exact .inl (List.mem_map_of_mem hs)
    · split at h
      · rcases List.mem_cons.1 h with rfl | h
        · exact .inr (hobjects hinput)
        · rw [List.mem_singleton.1 h] at hinput
          rw [List.mem_singleton.1 hinput]
          exact .inr ⟨_, generatedTarget_eq v.name⟩
      · cases h
  · have hrunner : input ∈ [e.runnerTarget v.name] → ∃ rest, input = e.inside v.name rest := by
      intro hmem
      rw [List.mem_singleton.1 hmem]
      exact ⟨_, runnerTarget_eq v.name⟩
    rcases List.mem_cons.1 h with rfl | h
    · refine .inr ?_
      rcases List.mem_append.1 hinput with hinput | hinput
      · exact hobjects hinput
      · split at hinput
        · rw [List.mem_singleton.1 hinput]
          exact ⟨_, registrationTarget_eq v.name⟩
        · cases hinput
    rcases List.mem_cons.1 h with rfl | h
    · exact .inr (hrunner hinput)
    · rw [List.mem_singleton.1 h] at hinput
      exact .inr (hrunner hinput)

/-- What a runner is linked from: the objects of the sources that are compiled, in order, and last
that of the generated file if there is one. -/
theorem linkInputs_eq (name : String) :
    (sources.filter e.compilable).map (e.objectTarget name) ++
        (if e.baseline.manualRegistration then [e.registrationTarget name] else []) =
      (e.stems sources).map fun stem => e.inside name (e.object stem) := by
  unfold stems
  rw [List.map_append, List.map_map]
  congr 1
  · exact List.map_congr_left fun s _ => objectTarget_eq name s
  · split
    · exact congrArg (fun target => [target]) (registrationTarget_eq name)
    · rfl

/-! ## What leads to the edges of a variant -/

theorem inside_eq (name rest : String) : e.inside name rest = e.variantDir name ++ "/" ++ rest := by
  apply String.toList_inj.1
  simp [inside, variantDir]

theorem eq_of_name_eq (hnames : MatrixNames variants) {w : Variant} (hw : w ∈ variants.toList)
    (hv : v ∈ variants.toList) (h : w.name = v.name) : w = v := by
  have inj : (variants.toList.map (·.name)).Nodup := hnames.own ▸ variants.nodup_names
  exact List.inj_on_of_nodup_map inj hw hv h

section Emitted

variable {g : Graph}

/-- No target is repeated, and so no stem is. -/
theorem Emitted.nodup_stems (emitted : e.Emitted variants sources g)
    (hnames : MatrixNames variants) : (e.stems sources).Nodup := by
  rw [← nodup_targets_iff hnames, ← emitted.edges]
  exact emitted.indexed.once

/-- An edge that makes a path inside the directory of a variant is one of the variant's. -/
theorem Emitted.mem_variantEdges (emitted : e.Emitted variants sources g)
    (hnames : MatrixNames variants) (hv : v ∈ variants.toList) {edge : Edge} (h : edge ∈ g.edges)
    {rest : String} (hinside : edge.target = e.inside v.name rest) :
    edge ∈ e.variantEdges sources v := by
  have hname := name_mem_variantNames hnames hv
  have hbelongs : e.Belongs v.name edge.target := .inr (.inr ⟨rest, hinside⟩)
  rw [emitted.edges] at h
  rcases List.mem_append.1 h with h | h
  · obtain ⟨w, hw, h⟩ := List.mem_flatMap.1 h
    have hvw : v.name = w.name := hbelongs.unique hname (name_mem_variantNames hnames hw)
      (belongs_of_mem_targets (List.mem_map_of_mem h))
    rwa [eq_of_name_eq hnames hv hw hvw]
  · exact absurd (mem_aggregateNames_of_mem (List.mem_map_of_mem h)) (hbelongs.not_aggregate hname)

/-- No source that is compiled is a target. -/
theorem Emitted.compiled_unmade (emitted : e.Emitted variants sources g)
    (hnames : MatrixNames variants) (valid : g.Valid) (unmade : ∀ s ∈ sources, Unmade s)
    {path : String} (h : path ∈ e.compiledPaths sources) : path ∉ g.targets := by
  intro htarget
  obtain ⟨s, hs, rfl⟩ := List.mem_map.1 h
  obtain ⟨hs, hsc⟩ := List.mem_filter.1 hs
  rw [Graph.targets, emitted.edges, path_mem_targets_iff hnames (unmade s hs)] at htarget
  obtain ⟨edge, hcycle⟩ := emitted.cycle_of_readsGenerated
    (readsGenerated_iff.2 ⟨htarget.1, s, hs, hsc, htarget.2⟩)
  exact valid.acyclic edge hcycle

/-- What feeds an edge of a variant is an edge of the variant, and makes a path inside its
directory. -/
theorem Emitted.step_within (emitted : e.Emitted variants sources g)
    (hnames : MatrixNames variants) (valid : g.Valid) (unmade : ∀ s ∈ sources, Unmade s)
    (hv : v ∈ variants.toList) {a b : Edge} (h : g.Feeds a b) (hb : b ∈ e.variantEdges sources v) :
    a ∈ e.variantEdges sources v ∧ ∃ rest, a.target = e.inside v.name rest := by
  obtain ⟨ha, -, hinput⟩ := h
  rcases reads_variantEdges hb hinput with hcompiled | ⟨rest, hinside⟩
  · exact absurd (List.mem_map_of_mem ha)
      (emitted.compiled_unmade hnames valid unmade hcompiled)
  · exact ⟨emitted.mem_variantEdges hnames hv ha hinside, rest, hinside⟩

/-- So is all that leads to an edge of a variant. -/
theorem Emitted.within (emitted : e.Emitted variants sources g)
    (hnames : MatrixNames variants) (valid : g.Valid) (unmade : ∀ s ∈ sources, Unmade s)
    (hv : v ∈ variants.toList) {a b : Edge} (h : ReflTransGen g.Feeds a b)
    (hb : b ∈ e.variantEdges sources v) :
    a ∈ e.variantEdges sources v ∧ (a = b ∨ ∃ rest, a.target = e.inside v.name rest) := by
  induction h using ReflTransGen.head_induction_on with
  | refl => exact ⟨hb, .inl rfl⟩
  | head feeds _ ih => exact (emitted.step_within hnames valid unmade hv feeds ih.1).imp_right .inr

end Emitted

/-! ## Isolation -/

/-- In every graph that emitting gives for variants of the matrix, and for sources that are named after
their languages, a variant stands on its own.  Its runner is linked from one object for each source
that is compiled, in order, and last from that of the generated file where tests need one.  Each
object is compiled from its source alone.  All that leads to running the variant is an edge inside
its directory, and no edge of another variant leads to one of its edges. -/
theorem emit_isolates (e : Emitter) (tc : Toolchain) (b : Baseline) (host : Host)
    (settings : Settings) (verdict : FlagSet → Bool) {variants : VariantSet}
    (matrix : variants = (buildMatrix tc b host settings).answer verdict) (sources : List Source)
    (named : ∀ s ∈ sources, s.Named) {g : Graph} (h : e.emit variants sources = .ok g)
    {v : Variant} (hv : v ∈ variants.toList) :
    (∃ link, g.edge? (e.runnerTarget v.name) = some link ∧ link.rule = Toolchain.linkRuleName ∧
      link.inputs = (sources.filter e.compilable).map (e.objectTarget v.name) ++
        (if e.baseline.manualRegistration then [e.registrationTarget v.name] else []) ∧
      link.inputs.Nodup) ∧
    (∀ s ∈ sources, e.compilable s = true →
      ∃ compile, g.edge? (e.objectTarget v.name s) = some compile ∧
        compile.rule = Toolchain.compileRuleName ∧ compile.inputs = [s.path]) ∧
    (∃ run, g.edge? (runTarget v.name) = some run ∧ run.inputs = [e.runnerTarget v.name] ∧
      ∀ edge, ReflTransGen g.Feeds edge run →
        edge.target = runTarget v.name ∨
          ∃ rest, edge.target = e.variantDir v.name ++ "/" ++ rest) ∧
    ∀ w ∈ variants.toList, w ≠ v →
      ∀ x ∈ e.variantEdges sources w, ∀ y ∈ e.variantEdges sources v, ¬ TransGen g.Feeds x y := by
  have hnames : MatrixNames variants := matrix ▸ matrixNames_answer tc b host settings verdict
  have unmade : ∀ s ∈ sources, Unmade s := fun s hs => unmade_of_named (named s hs)
  obtain ⟨emitted, valid⟩ := emitted_of_emit h
  have hname := name_mem_variantNames hnames hv
  have found : ∀ {edge : Edge}, edge ∈ e.variantEdges sources v →
      g.edge? edge.target = some edge := emitted.edge?_of_mem_variantEdges hv
  have hrun : e.runEdge v ∈ e.variantEdges sources v := by simp [variantEdges]
  refine ⟨⟨e.linkEdge v _, found linkEdge_mem, rfl, rfl, ?_⟩,
    fun s hs hsc => ?_, ⟨e.runEdge v, found hrun, rfl, fun edge hreach => ?_⟩,
    fun w hw hne x hx y hy hreach => ?_⟩
  · show ((sources.filter e.compilable).map (e.objectTarget v.name) ++ _).Nodup
    rw [linkInputs_eq]
    exact (emitted.nodup_stems hnames).map fun s t hst => object_inj.1 ((inside_inj hname hname).1 hst).2
  · exact ⟨e.compileEdge v s, found (compileEdge_mem hs hsc), rfl, rfl⟩
  · rcases (emitted.within hnames valid unmade hv hreach hrun).2 with rfl | ⟨rest, hinside⟩
    · exact .inl rfl
    · exact .inr ⟨rest, hinside.trans (inside_eq v.name rest)⟩
  · have hx' := (emitted.within hnames valid unmade hv hreach.to_reflTransGen hy).1
    have hbelongs : ∀ {u : Variant}, x ∈ e.variantEdges sources u → e.Belongs u.name x.target :=
      fun hu => belongs_of_mem_targets (List.mem_map_of_mem hu)
    exact hne (eq_of_name_eq hnames hw hv ((hbelongs hx).unique
      (name_mem_variantNames hnames hw) hname (hbelongs hx')))

/-! ## A project with both languages -/

/-- A small compiler: it knows one language, and tests do not register themselves. -/
def smallEmitter : Emitter where
  toolchain := ⟨⟨.tinyCc, "tcc", ⟨"/bin/tcc"⟩⟩⟩
  baseline := { manualRegistration := true }
  settings := {}
  buildDir := "out"

/-- Sources of both languages. -/
def mixedSources : List Source := [⟨"b.c", .c, false, false⟩, ⟨"c.cxx", .cxx, false, false⟩,
  ⟨"a.c", .c, false, false⟩]

theorem named_mixedSources : ∀ s ∈ mixedSources, s.Named := by
  intro s hs
  rcases List.mem_cons.1 hs with rfl | hs
  · exact ⟨"b", rfl⟩
  rcases List.mem_cons.1 hs with rfl | hs
  · exact ⟨"c", rfl⟩
  · rw [List.mem_singleton.1 hs]
    exact ⟨"a", rfl⟩

theorem exists_graph_mixedSources :
    ∃ g, smallEmitter.emit
      ((buildMatrix smallEmitter.toolchain {} {} {}).answer fun _ => true) mixedSources = .ok g := by
  have outside : ∀ s ∈ mixedSources,
      s.path.toList.head? ≠ (smallEmitter.buildDir ++ "/").toList.head? := by decide
  exact emit_outside (matrixNames_answer smallEmitter.toolchain {} {} {} fun _ => true) (by decide)
    (fun s hs => unmade_of_named (named_mixedSources s hs)) (by decide) outside

/-- The default runner is linked from the objects of the sources that the compiler knows, and from
that of the generated file. -/
theorem link_mixedSources :
    ∃ g link, smallEmitter.emit
        ((buildMatrix smallEmitter.toolchain {} {} {}).answer fun _ => true) mixedSources = .ok g ∧
      g.edge? "out/default-debug/runner" = some link ∧
        link.inputs = ["out/default-debug/objs/b.o", "out/default-debug/objs/a.o",
          "out/default-debug/objs/register_unit_tests.o"] := by
  have hnames := matrixNames_answer smallEmitter.toolchain {} {} {} fun _ => true
  obtain ⟨g, hemit⟩ := exists_graph_mixedSources
  obtain ⟨v, hv, hname⟩ := List.mem_map.1 (hnames.own ▸ hnames.default)
  obtain ⟨⟨link, hlink, -, hinputs, -⟩, -⟩ :=
    emit_isolates _ _ _ _ _ _ rfl _ named_mixedSources hemit hv
  rw [hname] at hlink hinputs
  exact ⟨g, link, hemit, hlink, hinputs⟩

end Emitter

end BuildMatrix
