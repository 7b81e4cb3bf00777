import BuildMatrix.Proofs.Emission.ExampleNames
import BuildMatrix.Proofs.Emission.Precedence
import BuildMatrix.Proofs.Variant.Words

/-!
# Flags as words of a command line

The flags of an edge are bound to a variable as one text, with a space between neighbours, and
the command line holds this text.  A flag that is not a single word is not one argument there.

Flags that have a space get it from outside: from a directory that is searched for headers, the
start of preprocessor names, the build directory, the header of the harness, or the path of an
example (`Emitter.Unspaced`, `Emitter.UnspacedExample`).  So the flags of a compilation are
found again behind the variable exactly if these are unbroken.  The flags of the linker are found
again anyway, unless they repeat those of the compilations (`Emitter.words_of_emit`).
-/

namespace BuildMatrix

open Text

theorem Text.unbroken_swap {mark with' : Char} (hmark : mark ≠ ' ') (hwith : with' ≠ ' ')
    {text : String} : Unbroken (swap mark with' text) ↔ Unbroken text := by
  rw [Unbroken, Unbroken, swap, String.toList_map, not_iff_not, List.mem_map]
  constructor
  · rintro ⟨c, hc, hspace⟩
    split at hspace
    · exact absurd hspace hwith
    · exact hspace ▸ hc
  · exact fun h => ⟨' ', h, if_neg (Ne.symm hmark)⟩

namespace Emitter

variable {e : Emitter} {variants : VariantSet} {sources : List Source} {g : Graph} {v : Variant}
  {s : Source}

/-! ## What has to be unbroken -/

/-- What the compilations of a language for a variant put into their flags is unbroken. -/
structure Unspaced (e : Emitter) (v : Variant) (language : Language) : Prop where
  shared : e.settings.Unspaced
  /-- The directories for C++ headers, where the flags for the language search them. -/
  cxxIncludeDirs : ∀ dir ∈ e.settings.cxxIncludeDirs,
    e.toolchain.includeFlag dir ∈ v.languageFlags language → Unbroken dir.text
  /-- The build directory, which Visual C++ is told for its side files. -/
  buildDir : e.toolchain.style = .msvc → Unbroken e.buildDir

/-- What an example puts into its flags besides is unbroken. -/
structure UnspacedExample (e : Emitter) (s : Source) : Prop where
  harnessIncludeDir : Unbroken e.settings.harnessIncludeDir.text
  /-- In the GNU style the header is an argument of its own, so it cannot be missing. -/
  harnessHeader : Unbroken e.settings.harnessHeader ∧
    (e.toolchain.style = .gnu → e.settings.harnessHeader ≠ "")
  /-- The name that the example is told. -/
  slug : Unbroken s.slug

theorem wordy_forcedIncludeFlags (tc : Toolchain) (header : String) :
    Wordy (tc.forcedIncludeFlags header) ↔
      Unbroken header ∧ (tc.style = .gnu → header ≠ "") := by
  unfold Toolchain.forcedIncludeFlags
  cases tc.style with
  | gnu =>
    have hflag : Word "-include" := by decide
    simp only [wordy_cons, wordy_nil, and_true, hflag, true_and, true_imp_iff]
    exact and_comm
  | msvc =>
    have hswap : Unbroken (swap '/' '\\' header) ↔ Unbroken header :=
      unbroken_swap (by decide) (by decide)
    simp [word_append (show Word "/FI" by decide), hswap]

/-- The flags for a variant's own directory, where the name of the variant is unbroken. -/
theorem wordy_variantDirFlags {name : String} (hname : Unbroken name) :
    Wordy (e.toolchain.variantDirFlags (e.variantDir name)) ↔
      (e.toolchain.style = .msvc → Unbroken e.buildDir) := by
  have hslash : Unbroken "/" := by decide
  unfold Toolchain.variantDirFlags
  cases e.toolchain.style with
  | gnu => simp
  | msvc =>
    simp only [wordy_cons, wordy_nil, and_true, true_imp_iff]
    rw [String.append_assoc, word_append (by decide), variantDir, unbroken_append,
      unbroken_append, unbroken_append, and_iff_left hslash, and_iff_left hname,
      and_iff_left hslash]

theorem wordy_exampleFlags (hstart : Unbroken e.settings.macroPrefix) :
    Wordy (e.exampleFlags s.slug s.mainVoid) ↔ e.UnspacedExample s := by
  have hname : Unbroken (e.settings.macroName "EXAMPLE_NAME") :=
    (unbroken_macroName e.settings (by decide)).2 hstart
  have hvoid : Wordy (if s.mainVoid then
      [e.toolchain.defineFlag (e.settings.macroName "EXAMPLE_MAIN_VOID") none] else []) := by
    split
    · exact List.forall_mem_singleton.2 ((e.toolchain.word_defineFlag_none _).2
        ((unbroken_macroName e.settings (by decide)).2 hstart))
    · exact wordy_nil
  rw [exampleFlags, wordy_cons, wordy_cons, wordy_append, and_iff_left hvoid,
    wordy_forcedIncludeFlags, Toolchain.word_includeFlag, Toolchain.word_defineFlag_some,
    and_iff_right hname]
  exact ⟨fun ⟨hdir, hslug, hheader⟩ => ⟨hdir, hheader, hslug⟩,
    fun unspaced => ⟨unspaced.harnessIncludeDir, unspaced.slug, unspaced.harnessHeader⟩⟩

/-! ## Planned variants -/

/-- The flags of a compilation for a planned variant are words exactly if what is put into them is
unbroken, and those of the single source are words. -/
theorem wordy_byPrecedence (planned : PlannedWords e.toolchain e.settings v)
    (hname : Unbroken v.name) (language : Language) (own : List String) :
    Wordy (e.byPrecedence v language own) ↔ e.Unspaced v language ∧ Wordy own := by
  rw [byPrecedence, wordy_append, wordy_append, wordy_append, wordy_append, wordy_append,
    planned.cpp, (planned.language language).wordy_iff, wordy_variantDirFlags hname,
    and_iff_left planned.config]
  constructor
  · rintro ⟨⟨⟨⟨hshared, hcxx⟩, -⟩, hbuild⟩, hown⟩
    exact ⟨⟨hshared, hcxx, hbuild⟩, hown⟩
  · rintro ⟨⟨hshared, hcxx, hbuild⟩, hown⟩
    -- names stand in the overrides too, and they start as those of all compilations do
    exact ⟨⟨⟨⟨hshared, hcxx⟩, planned.overrides hshared.macroPrefix⟩, hbuild⟩, hown⟩

theorem words_variantFlags (planned : PlannedWords e.toolchain e.settings v)
    (hname : Unbroken v.name) (language : Language) :
    words (e.variantFlags v language).text = (e.variantFlags v language).toList ↔
      e.Unspaced v language := by
  rw [FlagList.text, words_spaced_eq_iff, toList_variantFlags]
  exact (wordy_byPrecedence planned hname language []).trans (and_iff_left wordy_nil)

theorem words_sourceFlags (planned : PlannedWords e.toolchain e.settings v)
    (hname : Unbroken v.name) (s : Source) :
    words (e.sourceFlags v s).text = (e.sourceFlags v s).toList ↔
      e.Unspaced v s.language ∧ (s.isExample = true → e.UnspacedExample s) := by
  rw [FlagList.text, words_spaced_eq_iff, toList_sourceFlags, harnessFlags_eq]
  refine (wordy_byPrecedence planned hname _ _).trans (and_congr_right fun unspaced => ?_)
  by_cases hexample : s.isExample = true
  · rw [if_pos hexample, wordy_exampleFlags unspaced.shared.macroPrefix]
    exact ⟨fun h _ => h, fun h => h hexample⟩
  · rw [if_neg hexample]
    exact iff_of_true wordy_nil fun h => absurd h hexample

theorem words_ldFlags (planned : PlannedWords e.toolchain e.settings v) :
    words (spaced v.ldFlags) = v.ldFlags ↔ (ltoFlag ∈ v.ldFlags → e.settings.Unspaced) := by
  rw [words_spaced_eq_iff, ← planned.cpp]
  rcases planned.ld with hlink | ⟨hlto, hsub, hrest⟩
  · exact iff_of_true (fun flag hflag => (hlink flag hflag).1)
      fun hlto => absurd rfl (hlink _ hlto).2
  · -- all flags of the compilations are there, and what is there besides are words
    constructor
    · exact fun hwords _ flag hflag => hwords flag (hsub hflag)
    · exact fun hcpp flag hflag => (hrest flag hflag).elim id fun hmem => hcpp hlto flag hmem

theorem unbroken_name (hnames : MatrixNames variants) (hv : v ∈ variants.toList) :
    Unbroken v.name :=
  not_mem_of_mem_variantNames (name_mem_variantNames hnames hv) (by decide)

/-! ## The words in a graph -/

/-- In every graph that emitting gives for a plan, whatever the compiler, the settings and the sources
are, the words that an edge puts on its command line are its flags as they were composed exactly
if what is put into them is unbroken: for a source that is compiled, what the variant and an example put
into them; for the generated file, what the variant puts into them; for the runner, what all
compilations share if it is optimised when it is linked in the GNU style, and else nothing. -/
theorem words_of_emit (e : Emitter) {exe : Path} {env : Environment} {host : Host}
    {accepts : FlagSet → Bool} {variants : VariantSet}
    (plan : (planVariants e.toolchain exe e.settings env host).answer accepts =
      (e.baseline, variants))
    (h : e.emit variants sources = .ok g) (hv : v ∈ variants.toList) :
    (∀ s ∈ sources, e.compilable s = true →
      ∃ compile text, g.edge? (e.objectTarget v.name s) = some compile ∧
        compile.rule = Toolchain.compileRuleName ∧ compile.bindings = [("flags", text)] ∧
        (words text = (e.sourceFlags v s).toList ↔
          e.Unspaced v s.language ∧ (s.isExample = true → e.UnspacedExample s))) ∧
    (e.baseline.manualRegistration = true →
      ∃ compile text, g.edge? (e.registrationTarget v.name) = some compile ∧
        compile.rule = Toolchain.compileRuleName ∧ compile.bindings = [("flags", text)] ∧
        (words text = (e.variantFlags v .c).toList ↔ e.Unspaced v .c)) ∧
    ∃ link text, g.edge? (e.runnerTarget v.name) = some link ∧
      link.rule = Toolchain.linkRuleName ∧ link.bindings = [("flags", text)] ∧
      (words text = v.ldFlags ↔ (ltoFlag ∈ v.ldFlags → e.settings.Unspaced)) := by
  have hset : ((planVariants e.toolchain exe e.settings env host).answer accepts).2 = variants :=
    congrArg Prod.snd plan
  have planned : PlannedWords e.toolchain e.settings v := plannedWords_answer (hset ▸ hv)
  have hnames : MatrixNames variants := by
    rw [← hset, answer_planVariants]
    exact matrixNames_answer _ _ _ _ _
  have hname := unbroken_name hnames hv
  obtain ⟨emitted, -⟩ := emitted_of_emit h
  have found : ∀ {edge : Edge}, edge ∈ e.variantEdges sources v →
      g.edge? edge.target = some edge := emitted.edge?_of_mem_variantEdges hv
  refine ⟨fun s hs hsc => ?_, fun manual => ?_, ?_⟩
  · exact ⟨e.compileEdge v s, _, found (compileEdge_mem hs hsc), rfl, rfl,
      words_sourceFlags planned hname s⟩
  · exact ⟨e.registrationEdge v, _, found (registrationEdge_mem manual), rfl, rfl,
      words_variantFlags planned hname .c⟩
  · exact ⟨e.linkEdge v _, _, found linkEdge_mem, rfl, rfl,
      words_ldFlags planned⟩

/-! ## A directory for headers -/

/-- The settings of a project of three examples, with its headers in one directory. -/
def headerSettings (dir : Path) : Settings :=
  { sourceDirs := [⟨"examples"⟩], includeDirs := [dir] }

/-- The plan for the project, with a small compiler that accepts nothing. -/
def headerPlan (dir : Path) : Baseline × VariantSet :=
  (planVariants smallEmitter.toolchain ⟨"/bin/tcc"⟩ (headerSettings dir) {} {}).answer fun _ => false

/-- The emitter for the plan. -/
def headerEmitter (dir : Path) : Emitter :=
  { smallEmitter with settings := headerSettings dir, baseline := (headerPlan dir).1 }

theorem collectSources_header (dir : Path) :
    collectSources clashTree ⟨""⟩ (headerEmitter dir).settings false = clashSources :=
  collectSources_clashTree

theorem matrixNames_headerPlan (dir : Path) : MatrixNames (headerPlan dir).2 := by
  rw [headerPlan, answer_planVariants]
  exact matrixNames_answer _ _ _ _ _

theorem exists_graph_header (dir : Path) :
    ∃ g, (headerEmitter dir).emit (headerPlan dir).2
      (collectSources clashTree ⟨""⟩ (headerEmitter dir).settings false) = .ok g := by
  have once : (clashEmitter.stems clashSources).Nodup := by decide
  rw [collectSources_header]
  exact emit_clashSources (matrixNames_headerPlan dir) once rfl

/-- With a directory without spaces the flags of an example and of its runner are found again. -/
theorem words_of_emit_header :
    ∃ g v compile flags link linkFlags,
      (headerEmitter ⟨"include"⟩).emit (headerPlan ⟨"include"⟩).2
        (collectSources clashTree ⟨""⟩ (headerEmitter ⟨"include"⟩).settings false) = .ok g ∧
      v ∈ (headerPlan ⟨"include"⟩).2.toList ∧ v.name = variantName "default" .debug ∧
      g.edge? "out/default-debug/objs/examples/c.o" = some compile ∧
      compile.bindings = [("flags", flags)] ∧
      words flags = ((headerEmitter ⟨"include"⟩).sourceFlags v
        ⟨"examples/c.c", .c, true, false⟩).toList ∧
      g.edge? "out/default-debug/runner" = some link ∧ link.bindings = [("flags", linkFlags)] ∧
      words linkFlags = v.ldFlags := by
  have hnames := matrixNames_headerPlan ⟨"include"⟩
  obtain ⟨g, hemit⟩ := exists_graph_header ⟨"include"⟩
  obtain ⟨v, hv, hname⟩ := List.mem_map.1 (hnames.own ▸ hnames.default)
  have hs : ⟨"examples/c.c", .c, true, false⟩ ∈
      collectSources clashTree ⟨""⟩ (headerEmitter ⟨"include"⟩).settings false := by
    rw [collectSources_header]
    decide
  have shared : (headerEmitter ⟨"include"⟩).settings.Unspaced := ⟨by decide, by decide⟩
  have unspaced : (headerEmitter ⟨"include"⟩).Unspaced v .c :=
    ⟨shared, fun dir hdir _ => (show ∀ dir ∈ (headerEmitter ⟨"include"⟩).settings.cxxIncludeDirs,
      Unbroken dir.text by decide) dir hdir, by decide⟩
  have unspaced' : (headerEmitter ⟨"include"⟩).UnspacedExample ⟨"examples/c.c", .c, true, false⟩ :=
    ⟨by decide, by decide, by decide +kernel⟩
  obtain ⟨compiles, -, link, linkFlags, hlink, -, hlinkFlags, hlinkWords⟩ :=
    words_of_emit (headerEmitter ⟨"include"⟩) rfl hemit hv
  obtain ⟨compile, flags, hcompile, -, hflags, hwords⟩ := compiles _ hs rfl
  rw [objectTarget, objectDir, variantDir, hname] at hcompile
  rw [runnerTarget, variantDir, hname] at hlink
  exact ⟨g, v, compile, flags, link, linkFlags, hemit, hv, hname, hcompile, hflags,
    hwords.2 ⟨unspaced, fun _ => unspaced'⟩, hlink, hlinkFlags, hlinkWords.2 fun _ => shared⟩

/-- With a space in the directory the flag that searches it comes apart: what an edge puts on its
command line are not the flags that were composed for it. -/
theorem words_of_emit_spaced :
    (planVariants (headerEmitter ⟨"my include"⟩).toolchain ⟨"/bin/tcc"⟩
        (headerEmitter ⟨"my include"⟩).settings {} {}).answer (fun _ => false) =
      ((headerEmitter ⟨"my include"⟩).baseline, (headerPlan ⟨"my include"⟩).2) ∧
    ∃ g, (headerEmitter ⟨"my include"⟩).emit (headerPlan ⟨"my include"⟩).2
        (collectSources clashTree ⟨""⟩ (headerEmitter ⟨"my include"⟩).settings false) = .ok g ∧
      ∃ v ∈ (headerPlan ⟨"my include"⟩).2.toList,
      ∃ s ∈ collectSources clashTree ⟨""⟩ (headerEmitter ⟨"my include"⟩).settings false,
      ∃ compile text, g.edge? ((headerEmitter ⟨"my include"⟩).objectTarget v.name s) = some compile ∧
        compile.bindings = [("flags", text)] ∧
        words text ≠ ((headerEmitter ⟨"my include"⟩).sourceFlags v s).toList := by
  have hnames := matrixNames_headerPlan ⟨"my include"⟩
  obtain ⟨g, hemit⟩ := exists_graph_header ⟨"my include"⟩
  obtain ⟨emitted, -⟩ := emitted_of_emit hemit
  obtain ⟨v, hv, -⟩ := List.mem_map.1 (hnames.own ▸ hnames.default)
  have hs : ⟨"examples/c.c", .c, true, false⟩ ∈
      collectSources clashTree ⟨""⟩ (headerEmitter ⟨"my include"⟩).settings false := by
    rw [collectSources_header]
    decide
  have planned : PlannedWords (headerEmitter ⟨"my include"⟩).toolchain
      (headerEmitter ⟨"my include"⟩).settings v := plannedWords_answer hv
  refine ⟨rfl, g, hemit, v, hv, _, hs, _, _,
    emitted.edge?_of_mem_variantEdges hv (compileEdge_mem hs rfl), rfl, fun hwords => ?_⟩
  have unspaced := ((words_sourceFlags planned (unbroken_name hnames hv) _).1 hwords).1
  exact absurd (unspaced.shared.includeDirs ⟨"my include"⟩ List.mem_cons_self) (by decide)

end Emitter

end BuildMatrix
