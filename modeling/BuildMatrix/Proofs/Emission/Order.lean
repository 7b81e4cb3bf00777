import BuildMatrix.Proofs.Emission.Targets
import BuildMatrix.Proofs.Graph.Staging

/-!
# The graph that emitting makes

If no two targets are the same, a graph with exactly the edges, rules, sources and
defaults that are asked for is made and checked (`emit_cases`).  Its rules are
declared (`rule_declared`), and its edges come in the order of a build
(`staged_allEdges`): first the objects, then what is made from them, and in the end
the targets that run several variants.  Sources that are compiled are all that is
read besides.
-/

namespace BuildMatrix

/-! ## Graphs before and after their edges -/

namespace Graph

theorem foldl_addRule (g : Graph) (rules : List Rule) :
    rules.foldl addRule g = { g with rules := g.rules ++ rules } := by
  induction rules generalizing g with
  | nil => rw [List.append_nil]; rfl
  | cons rule rules ih =>
    rw [List.foldl_cons, ih]
    simp only [addRule, List.append_assoc, List.singleton_append]

theorem foldl_addDefault (g : Graph) (targets : List String) :
    targets.foldl addDefault g = { g with defaults := g.defaults ++ targets } := by
  induction targets generalizing g with
  | nil => rw [List.append_nil]; rfl
  | cons target targets ih =>
    rw [List.foldl_cons, ih]
    simp only [addDefault, List.append_assoc, List.singleton_append]

theorem foldl_addSource (g : Graph) (sources : List Source) :
    ∃ paths, sources.foldl (fun g s => g.addSource s.path) g = { g with sources := paths } ∧
      ∀ path, path ∈ paths ↔ path ∈ g.sources ∨ path ∈ sources.map (·.path) := by
  induction sources generalizing g with
  | nil => exact ⟨g.sources, rfl, fun path => by simp⟩
  | cons s sources ih =>
    obtain ⟨paths, hfold, hpaths⟩ := ih (g.addSource s.path)
    refine ⟨paths, hfold, fun path => ?_⟩
    have hadd : path ∈ (g.addSource s.path).sources ↔ path ∈ g.sources ∨ path = s.path := by
      unfold addSource
      by_cases hmem : s.path ∈ g.sources
      · simp only [if_pos hmem]
        exact ⟨.inl, fun h => h.elim id fun heq => heq ▸ hmem⟩
      · simp only [if_neg hmem, List.mem_append, List.mem_singleton]
    rw [hpaths, hadd, List.map_cons, List.mem_cons, or_assoc]

end Graph

namespace Emitter

variable {e : Emitter} {variants : VariantSet} {sources : List Source}

/-! ## The graph that is checked -/

/-- The graph that is checked in the end. -/
structure Emitted (e : Emitter) (variants : VariantSet) (sources : List Source) (g : Graph) :
    Prop where
  /-- It is made by additions. -/
  indexed : g.Indexed
  /-- Its edges are those of the variants and the aggregates. -/
  edges : g.edges = e.allEdges variants sources
  /-- Its rules are those of the emitter. -/
  rules : g.rules = e.rules
  /-- All sources are sources of it, and nothing else. -/
  sources : ∀ path, path ∈ g.sources ↔ path ∈ sources.map (·.path)
  /-- Its defaults are those of the variants. -/
  defaults : g.defaults = Emitter.defaults variants

/-! ### The edges of a variant in it -/

section Variants

variable {g : Graph} {v : Variant} {s : Source}

theorem compileEdge_mem (hs : s ∈ sources) (hsc : e.compilable s = true) :
    e.compileEdge v s ∈ e.variantEdges sources v :=
  List.mem_append_left _ (List.mem_append_left _
    (List.mem_map_of_mem (List.mem_filter.2 ⟨hs, hsc⟩)))

theorem linkEdge_mem :
    e.linkEdge v ((sources.filter e.compilable).map (e.objectTarget v.name) ++
        if e.baseline.manualRegistration then [e.registrationTarget v.name] else []) ∈
      e.variantEdges sources v :=
  List.mem_append_right _ List.mem_cons_self

theorem Emitted.mem_of_mem_variantEdges (emitted : e.Emitted variants sources g)
    (hv : v ∈ variants.toList) {edge : Edge} (h : edge ∈ e.variantEdges sources v) :
    edge ∈ g.edges := by
  rw [emitted.edges]
  exact List.mem_append_left _ (List.mem_flatMap.2 ⟨v, hv, h⟩)

theorem Emitted.edge?_of_mem_variantEdges (emitted : e.Emitted variants sources g)
    (hv : v ∈ variants.toList) {edge : Edge} (h : edge ∈ e.variantEdges sources v) :
    g.edge? edge.target = some edge :=
  emitted.indexed.edge?_of_mem (emitted.mem_of_mem_variantEdges hv h)

end Variants

/-! ### How it is made -/

/-- The graph before its edges. -/
theorem start_eq (e : Emitter) (sources : List Source) :
    ∃ paths, e.start sources =
        { globals := [("run_wrapper", "")], rules := e.rules, sources := paths } ∧
      ∀ path, path ∈ paths ↔ path ∈ sources.map (·.path) := by
  obtain ⟨paths, hstart, hpaths⟩ := Graph.foldl_addSource
    { globals := [("run_wrapper", "")], rules := e.rules } sources
  refine ⟨paths, ?_, fun path => ?_⟩
  · rw [start, Graph.foldl_addRule]
    exact hstart
  · rw [hpaths]
    exact or_iff_right List.not_mem_nil

/-- The graph is checked if no two of its targets are the same; else it is refused before that. -/
theorem emit_cases (e : Emitter) (variants : VariantSet) (sources : List Source) :
    (¬ ((e.allEdges variants sources).map Edge.target).Nodup ∧
      ∃ target, e.emit variants sources = .error (.duplicateTarget target)) ∨
    ((e.allEdges variants sources).map Edge.target).Nodup ∧
      ∃ g, e.Emitted variants sources g ∧
        e.emit variants sources = g.validate >>= fun _ => .ok g := by
  obtain ⟨paths, hstart, hpaths⟩ := e.start_eq sources
  have hindexed : (e.start sources).Indexed := by
    rw [hstart]
    exact Graph.indexed_empty.congr rfl rfl
  have htargets : (e.start sources).targets = [] := by
    rw [hstart]
    rfl
  have hemit : e.emit variants sources =
      ((e.start sources).addAll (e.allEdges variants sources) >>= fun g =>
        ((defaults variants).foldl Graph.addDefault g).validate >>= fun _ =>
          .ok ((defaults variants).foldl Graph.addDefault g)) := rfl
  by_cases once : ((e.allEdges variants sources).map Edge.target).Nodup
  · obtain ⟨h, hadd, hh, hfields⟩ := Graph.addAll_of_nodup hindexed (by
      rw [htargets, List.nil_append]
      exact once)
    rw [hstart] at hfields
    refine .inr ⟨once, (defaults variants).foldl Graph.addDefault h, ?_, ?_⟩
    · rw [Graph.foldl_addDefault]
      refine ⟨hh.congr rfl rfl, ?_, ?_, ?_, ?_⟩
      · rw [hfields]
        rfl
      · rw [hfields]
      · rw [hfields]
        exact hpaths
      · rw [hfields]
        rfl
    · rw [hemit, hadd]
      rfl
  · obtain ⟨target, hadd⟩ := Graph.addAll_of_not_nodup hindexed (by
      rw [htargets, List.nil_append]
      exact once)
    refine .inl ⟨once, target, ?_⟩
    rw [hemit, hadd]
    rfl

/-- A graph that emitting gives is the one that is checked, and passed. -/
theorem emitted_of_emit {g : Graph} (h : e.emit variants sources = .ok g) :
    e.Emitted variants sources g ∧ g.Valid := by
  rcases e.emit_cases variants sources with ⟨-, target, hemit⟩ | ⟨-, checked, emitted, hemit⟩
  · rw [hemit] at h
    cases h
  · rw [hemit] at h
    cases hvalidate : checked.validate with
    | error error =>
      rw [hvalidate] at h
      cases h
    | ok _ =>
      rw [hvalidate] at h
      injection h with hg
      subst hg
      exact ⟨emitted, (Graph.validate_eq_ok_iff emitted.indexed).1 hvalidate⟩

/-! ## The order of the edges -/

variable (e) in
/-- The paths of the sources that are compiled. -/
def compiledPaths (sources : List Source) : List String :=
  (sources.filter e.compilable).map (·.path)

/-- What the edges of a variant read are sources that are compiled, and what earlier ones make. -/
theorem staged_variantEdges (v : Variant) (made : List String) :
    Staged (e.compiledPaths sources) made (e.variantEdges sources v) := by
  have hcompile : Staged (e.compiledPaths sources) made
      ((sources.filter e.compilable).map (e.compileEdge v)) := by
    refine Staged.of_files fun edge hedge => ?_
    obtain ⟨s, hs, rfl⟩ := List.mem_map.1 hedge
    refine ⟨show Toolchain.compileRuleName ≠ phony by decide, fun path hpath => ?_⟩
    rw [List.mem_singleton.1 hpath]
    exact List.mem_map_of_mem hs
  have hobjects : ((sources.filter e.compilable).map (e.compileEdge v)).map Edge.target =
      (sources.filter e.compilable).map (e.objectTarget v.name) := by
    rw [List.map_map]
    rfl
  -- the runner is read under its name and to run it
  have hlink : ∀ {made objects : List String}, objects ⊆ made →
      Staged (e.compiledPaths sources) made
        [e.linkEdge v objects, Edge.alias v.name [e.runnerTarget v.name], e.runEdge v] := by
    intro made objects hsubset
    refine ⟨fun input hinput => .inl (hsubset hinput), fun input hinput => .inl ?_,
      fun input hinput => .inl ?_, trivial⟩
    · rw [List.mem_singleton.1 hinput]
      exact List.mem_cons_self
    · rw [List.mem_singleton.1 hinput]
      exact List.mem_cons_of_mem _ List.mem_cons_self
  unfold variantEdges
  cases e.baseline.manualRegistration with
  | false =>
    simp only [Bool.false_eq_true, if_false, List.append_nil]
    refine hcompile.append (hlink ?_)
    rw [hobjects]
    exact List.subset_append_left _ _
  | true =>
    simp only [if_true, List.append_assoc]
    refine hcompile.append ?_
    rw [hobjects]
    refine ⟨fun input hinput => .inl (List.mem_append_left _ hinput), fun input hinput => .inl ?_,
      hlink ?_⟩
    · rw [List.mem_singleton.1 hinput]
      exact List.mem_cons_self
    · intro object hobject
      rcases List.mem_append.1 hobject with hobject | hobject
      · exact List.mem_cons_of_mem _ (List.mem_cons_of_mem _ (List.mem_append_left _ hobject))
      · rw [List.mem_singleton.1 hobject]
        exact List.mem_cons_self

/-- The edges of variants and aggregates come in the order of a build. -/
theorem staged_allEdges (hnames : MatrixNames variants) :
    Staged (e.compiledPaths sources) [] (e.allEdges variants sources) := by
  refine (Staged.flatMap (fun v made => staged_variantEdges v made) variants.toList).append ?_
  have hrun : ∀ name ∈ variants.names, runTarget name ∈
      (variants.toList.flatMap (e.variantEdges sources)).map Edge.target ++ [] := by
    intro name hname
    rw [← hnames.own] at hname
    obtain ⟨v, hv, rfl⟩ := List.mem_map.1 hname
    rw [List.append_nil, List.map_flatMap]
    refine List.mem_flatMap.2 ⟨v, hv, ?_⟩
    rw [targets_variantEdges]
    exact List.mem_append_right _ (List.mem_cons_of_mem _ List.mem_cons_self)
  refine Staged.of_made fun edge hedge input hinput => ?_
  unfold aggregateEdges at hedge
  rcases List.mem_append.1 hedge with hedge | hedge
  · split at hedge
    · next hdefault =>
      rw [List.mem_singleton.1 hedge] at hinput
      rw [List.mem_singleton.1 hinput]
      exact hrun _ (VariantSet.contains_iff_mem_names.1 hdefault)
    · cases hedge
  · rcases List.mem_cons.1 hedge with rfl | hedge
    · obtain ⟨v, hv, rfl⟩ := List.mem_map.1 hinput
      refine hrun _ ?_
      rw [← hnames.own]
      exact List.mem_map_of_mem (List.mem_of_mem_filter hv)
    · rw [List.mem_singleton.1 hedge] at hinput
      obtain ⟨name, hname, rfl⟩ := List.mem_map.1 hinput
      exact hrun _ (VariantSet.contains_iff_mem_names.1 (List.mem_filter.1 hname).2)

/-! ## The rules of the edges -/

theorem name_compileRule (tc : Toolchain) (launcher : Option String) (depfile : Bool) :
    (tc.compileRule launcher depfile).name = Toolchain.compileRuleName := by
  unfold Toolchain.compileRule
  cases tc.style with
  | gnu => cases depfile <;> rfl
  | msvc => rfl

theorem name_linkRule (tc : Toolchain) : tc.linkRule.name = Toolchain.linkRuleName := by
  unfold Toolchain.linkRule
  cases tc.style <;> rfl

/-- The rule of every edge is declared or `phony`. -/
theorem rule_declared {edge : Edge} (h : edge ∈ e.allEdges variants sources)
    (hrule : edge.rule ≠ phony) : ∃ r ∈ e.rules, r.name = edge.rule := by
  have hcompile : ∃ r ∈ e.rules, r.name = Toolchain.compileRuleName :=
    ⟨_, by simp [rules], name_compileRule e.toolchain e.launcher e.baseline.depfile⟩
  have hlink : ∃ r ∈ e.rules, r.name = Toolchain.linkRuleName :=
    ⟨_, by simp [rules], name_linkRule e.toolchain⟩
  have hrun : ∃ r ∈ e.rules, r.name = runRuleName := by simp [rules]
  have hgenerate : e.baseline.manualRegistration = true →
      ∃ r ∈ e.rules, r.name = generateRuleName := fun hmanual => by simp [rules, hmanual]
  rcases List.mem_append.1 h with h | h
  · obtain ⟨v, -, h⟩ := List.mem_flatMap.1 h
    rcases List.mem_append.1 h with h | h
    · rcases List.mem_append.1 h with h | h
      · obtain ⟨s, -, rfl⟩ := List.mem_map.1 h
        exact hcompile
      · split at h
        · next hmanual =>
          rcases List.mem_cons.1 h with rfl | h
          · exact hgenerate hmanual
          · rw [List.mem_singleton.1 h]
            exact hcompile
        · cases h
    · rcases List.mem_cons.1 h with rfl | h
      · exact hlink
      rcases List.mem_cons.1 h with rfl | h
      · exact absurd rfl hrule
      · rw [List.mem_singleton.1 h]
        exact hrun
  · have hphony : ∀ edge ∈ e.aggregateEdges variants, edge.rule = phony := by
      unfold aggregateEdges
      split <;> simp [Edge.alias]
    exact absurd (hphony edge h) hrule

end Emitter

end BuildMatrix
