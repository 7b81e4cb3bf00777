import BuildMatrix.Proofs.Emission.Isolation

/-!
# The order of flags on a command line

A flag list is filled from several places, in any order, and it is composed by stage.  So
the flags of a compilation stand in the order of their precedence: those that all
compilations of the variant share, those of the language, those of the variant, those of
the single source, and last those of the configuration (`toList_sourceFlags`).

Every edge that compiles something belongs to one variant, and to one source or to the
generated file (`Emitted.compiles`).  Its flags come from that variant and that source alone:
whatever else is emitted with them, the edge is the same (`flags_of_emit`).
-/

namespace BuildMatrix.Emitter

open Text

variable {e : Emitter} {variants : VariantSet} {sources : List Source} {g : Graph} {v : Variant}
  {s : Source}

/-! ## Composed lists -/

/-- All flags of a compilation for a variant, the weakest first; `own` are those of the single
source. -/
def byPrecedence (e : Emitter) (v : Variant) (language : Language) (own : List String) :
    List String :=
  v.cppFlags ++ v.languageFlags language ++ v.overrides ++
    e.toolchain.variantDirFlags (e.variantDir v.name) ++ own ++ v.configFlags

/-- The flags that an example is compiled with besides: the directory of the harness, the name of the
example, the header of the harness, and a note if the main function takes no arguments. -/
def exampleFlags (e : Emitter) (slug : String) (mainVoid : Bool) : List String :=
  e.toolchain.includeFlag e.settings.harnessIncludeDir ::
    e.toolchain.defineFlag (e.settings.macroName "EXAMPLE_NAME") (some slug) ::
      (e.toolchain.forcedIncludeFlags e.settings.harnessHeader ++
        if mainVoid then [e.toolchain.defineFlag (e.settings.macroName "EXAMPLE_MAIN_VOID") none]
        else [])

theorem harnessFlags_eq (e : Emitter) (s : Source) :
    e.harnessFlags s = if s.isExample then e.exampleFlags s.slug s.mainVoid else [] := rfl

theorem toList_variantFlags (e : Emitter) (v : Variant) (language : Language) :
    (e.variantFlags v language).toList = e.byPrecedence v language [] := by
  simp [FlagList.toList, Stage.all, FlagList.stage, variantFlags, Variant.compileFlags,
    FlagList.append, byPrecedence]

theorem toList_sourceFlags (e : Emitter) (v : Variant) (s : Source) :
    (e.sourceFlags v s).toList = e.byPrecedence v s.language (e.harnessFlags s) := by
  simp [FlagList.toList, Stage.all, FlagList.stage, sourceFlags, variantFlags, Variant.compileFlags,
    FlagList.append, byPrecedence]

/-! ## The edges that compile -/

/-- The edge that compiles the generated file of a variant. -/
def registrationEdge (e : Emitter) (v : Variant) : Edge where
  target := e.registrationTarget v.name
  rule := Toolchain.compileRuleName
  inputs := [e.generatedTarget v.name]
  bindings := [("flags", (e.variantFlags v .c).text)]

theorem registrationEdge_mem (manual : e.baseline.manualRegistration = true) :
    e.registrationEdge v ∈ e.variantEdges sources v := by
  refine List.mem_append_left _ (List.mem_append_right _ ?_)
  rw [if_pos manual]
  exact List.mem_cons_of_mem _ List.mem_cons_self

/-- An edge of a variant that compiles something compiles one of the sources or the generated file. -/
theorem compiles_variantEdges {edge : Edge} (h : edge ∈ e.variantEdges sources v)
    (hrule : edge.rule = Toolchain.compileRuleName) :
    (∃ s ∈ sources, e.compilable s = true ∧ edge = e.compileEdge v s) ∨
      e.baseline.manualRegistration = true ∧ edge = e.registrationEdge v := by
  unfold variantEdges at h
  rcases List.mem_append.1 h with h | h
  · rcases List.mem_append.1 h with h | h
    · obtain ⟨s, hs, rfl⟩ := List.mem_map.1 h
      obtain ⟨hs, hsc⟩ := List.mem_filter.1 hs
      exact .inl ⟨s, hs, hsc, rfl⟩
    · split at h
      · next manual =>
        rcases List.mem_cons.1 h with rfl | h
        · exact absurd hrule (by decide : generateRuleName ≠ Toolchain.compileRuleName)
        · exact .inr ⟨manual, List.mem_singleton.1 h⟩
      · cases h
  · -- what is left links the runner, names it or runs it
    rcases List.mem_cons.1 h with rfl | h
    · exact absurd hrule (by decide : Toolchain.linkRuleName ≠ Toolchain.compileRuleName)
    rcases List.mem_cons.1 h with rfl | h
    · exact absurd hrule (by decide : phony ≠ Toolchain.compileRuleName)
    · rw [List.mem_singleton.1 h] at hrule
      exact absurd hrule (by decide : runRuleName ≠ Toolchain.compileRuleName)

theorem rule_of_mem_aggregateEdges {edge : Edge} (h : edge ∈ e.aggregateEdges variants) :
    edge.rule = phony := by
  unfold aggregateEdges at h
  split at h
  · rcases List.mem_cons.1 h with rfl | h
    · rfl
    rcases List.mem_cons.1 h with rfl | h
    · rfl
    · rw [List.mem_singleton.1 h]
      rfl
  · rcases List.mem_cons.1 h with rfl | h
    · rfl
    · rw [List.mem_singleton.1 h]
      rfl

/-- Every edge of the graph that compiles something does so for one variant. -/
theorem Emitted.compiles (emitted : e.Emitted variants sources g) {edge : Edge} (h : edge ∈ g.edges)
    (hrule : edge.rule = Toolchain.compileRuleName) :
    ∃ v ∈ variants.toList, (∃ s ∈ sources, e.compilable s = true ∧ edge = e.compileEdge v s) ∨
      e.baseline.manualRegistration = true ∧ edge = e.registrationEdge v := by
  rw [emitted.edges] at h
  rcases List.mem_append.1 h with h | h
  · obtain ⟨v, hv, h⟩ := List.mem_flatMap.1 h
    exact ⟨v, hv, compiles_variantEdges h hrule⟩
  · rw [rule_of_mem_aggregateEdges h] at hrule
    exact absurd hrule (by decide)

/-! ## The flags in a graph -/

/-- In every graph that emitting gives, the object of a source is compiled for a variant with the flags
that the variant has for all compilations, those for the language of the source, those that override
them, those for the variant's own directory, then those of an example if it is one, and last those of
the configuration.  The generated file is compiled as C, with the same flags but for those of an
example.  Nothing else is compiled.  So the edge for a source depends on nothing but the emitter, the
variant and the source: every other graph in which they meet has the same edge. -/
theorem flags_of_emit (e : Emitter) {variants : VariantSet} {sources : List Source} {g : Graph}
    (h : e.emit variants sources = .ok g) :
    (∀ v ∈ variants.toList,
      (∀ s ∈ sources, e.compilable s = true →
        ∃ compile, g.edge? (e.objectTarget v.name s) = some compile ∧
          compile.rule = Toolchain.compileRuleName ∧ compile.inputs = [s.path] ∧
          compile.bindings = [("flags", spaced (v.cppFlags ++ v.languageFlags s.language ++
            v.overrides ++ e.toolchain.variantDirFlags (e.variantDir v.name) ++
            (if s.isExample then e.exampleFlags s.slug s.mainVoid else []) ++ v.configFlags))] ∧
          ∀ {variants' sources' g'}, e.emit variants' sources' = .ok g' → v ∈ variants'.toList →
            s ∈ sources' → g'.edge? (e.objectTarget v.name s) = some compile) ∧
      (e.baseline.manualRegistration = true →
        ∃ compile, g.edge? (e.registrationTarget v.name) = some compile ∧
          compile.rule = Toolchain.compileRuleName ∧ compile.inputs = [e.generatedTarget v.name] ∧
          compile.bindings = [("flags", spaced (v.cppFlags ++ v.languageFlags .c ++ v.overrides ++
            e.toolchain.variantDirFlags (e.variantDir v.name) ++ v.configFlags))] ∧
          ∀ {variants' sources' g'}, e.emit variants' sources' = .ok g' → v ∈ variants'.toList →
            g'.edge? (e.registrationTarget v.name) = some compile)) ∧
    ∀ edge ∈ g.edges, edge.rule = Toolchain.compileRuleName →
      ∃ v ∈ variants.toList,
        (∃ s ∈ sources, e.compilable s = true ∧ edge.target = e.objectTarget v.name s) ∨
          e.baseline.manualRegistration = true ∧ edge.target = e.registrationTarget v.name := by
  have found : ∀ {variants : VariantSet} {sources : List Source} {g : Graph} {v : Variant}
      {edge : Edge}, e.emit variants sources = .ok g → v ∈ variants.toList →
        edge ∈ e.variantEdges sources v → g.edge? edge.target = some edge := by
    intro variants sources g v edge h hv hedge
    obtain ⟨emitted, -⟩ := emitted_of_emit h
    exact emitted.edge?_of_mem_variantEdges hv hedge
  refine ⟨fun v hv => ⟨fun s hs hsc => ?_, fun manual => ?_⟩, fun edge hedge hrule => ?_⟩
  · refine ⟨e.compileEdge v s, found h hv (compileEdge_mem hs hsc), rfl, rfl, ?_,
      fun h' hv' hs' => found h' hv' (compileEdge_mem hs' hsc)⟩
    rw [compileEdge, FlagList.text, toList_sourceFlags, byPrecedence, harnessFlags_eq]
  · refine ⟨e.registrationEdge v, found h hv (registrationEdge_mem manual), rfl, rfl, ?_,
      fun h' hv' => found h' hv' (registrationEdge_mem manual)⟩
    rw [registrationEdge, FlagList.text, toList_variantFlags, byPrecedence, List.append_nil]
  · obtain ⟨emitted, -⟩ := emitted_of_emit h
    obtain ⟨v, hv, ⟨s, hs, hsc, rfl⟩ | ⟨manual, rfl⟩⟩ := emitted.compiles hedge hrule
    · exact ⟨v, hv, .inl ⟨s, hs, hsc, rfl⟩⟩
    · exact ⟨v, hv, .inr ⟨manual, rfl⟩⟩

/-! ## An example for Visual C++ -/

/-- An emitter for Visual C++ with the settings of a project that states none. -/
def visualEmitter : Emitter where
  toolchain := ⟨⟨.msvc, "cl", ⟨"cl.exe"⟩⟩⟩
  baseline := { manualRegistration := true }
  settings := {}
  buildDir := "out"

/-- A debug variant that optimises when it links. -/
def visualVariant : Variant where
  name := "default-debug"
  cppFlags := ["/W4"]
  cFlags := ["/TC"]
  overrides := ["/GL"]
  configFlags := ["/Od"]

/-- An example whose main function takes no arguments. -/
def visualExample : Source := ⟨"examples/hello.c", .c, true, true⟩

theorem exists_graph_visual :
    ∃ g, visualEmitter.emit (VariantSet.ofList [visualVariant]) [visualExample] = .ok g := by
  have hnames : MatrixNames (VariantSet.ofList [visualVariant]) :=
    ⟨VariantSet.map_name_toList_ofList _, by decide, by decide⟩
  have outside : ∀ s ∈ [visualExample],
      s.path.toList.head? ≠ (visualEmitter.buildDir ++ "/").toList.head? := by decide
  refine emit_outside hnames (by decide) (fun s hs => unmade_of_named ?_) (by decide) outside
  rw [List.mem_singleton.1 hs]
  exact ⟨"examples/hello", rfl⟩

/-- The flag for optimisation comes last, behind those of the example. -/
theorem flags_of_emit_visual :
    ∃ g compile, visualEmitter.emit (VariantSet.ofList [visualVariant]) [visualExample] = .ok g ∧
      g.edge? "out/default-debug/objs/examples/hello.obj" = some compile ∧
      compile.bindings = [("flags", "/W4 /TC /GL /Fdout/default-debug/ " ++
        "/Itest/src/pottery/isystem -DPOTTERY_EXAMPLE_NAME=examples_hello " ++
        "/FIpottery\\unit\\test_pottery_example.h -DPOTTERY_EXAMPLE_MAIN_VOID /Od")] := by
  obtain ⟨g, hemit⟩ := exists_graph_visual
  have hv : visualVariant ∈ (VariantSet.ofList [visualVariant]).toList := by decide
  obtain ⟨compile, hcompile, -, -, hflags, -⟩ :=
    ((flags_of_emit visualEmitter hemit).1 visualVariant hv).1 visualExample
      List.mem_cons_self rfl
  have htarget : visualEmitter.objectTarget visualVariant.name visualExample =
      "out/default-debug/objs/examples/hello.obj" := by decide +kernel
  rw [htarget] at hcompile
  exact ⟨g, compile, hemit, hcompile, hflags.trans (by decide +kernel)⟩

end BuildMatrix.Emitter
