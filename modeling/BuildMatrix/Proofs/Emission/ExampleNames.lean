import BuildMatrix.Proofs.Emission.BuildRoot
import Mathlib.Data.List.Forall2

/-!
# The names of examples

An example is told its name by a macro, and the name is the slug of its path.  A slug leaves little of
a path: nothing behind the first dot, wherever it is, and of slashes, backslashes and underscores only
where they stand.  So two examples have the same name exactly if their paths agree up to this
(`Source.slug_eq_iff`).

That happens in one graph.  The objects of its examples are different, since no stem is used twice, but
stems keep what slugs lose.  It does not happen where stems hold no dot and no underscore
(`Emitter.exampleNames_of_emit`).
-/

namespace BuildMatrix

open Text

/-! ## What a slug leaves of a path -/

/-- The characters that a slug does not tell apart. -/
def slugMarks : List Char := ['/', '\\', '_']

/-- Two characters that a slug does not tell apart. -/
def SlugAlike (c d : Char) : Prop := c = d ∨ c ∈ slugMarks ∧ d ∈ slugMarks

/-- What a slug has in the place of a character. -/
def slugChar (c : Char) : Char := if c ∈ slugMarks then '_' else c

theorem slugChar_eq_iff {c d : Char} : slugChar c = slugChar d ↔ SlugAlike c d := by
  have hmark : '_' ∈ slugMarks := by decide
  unfold slugChar SlugAlike
  by_cases hc : c ∈ slugMarks
  · by_cases hd : d ∈ slugMarks
    · simp [hc, hd]
    · rw [if_pos hc, if_neg hd]
      exact iff_of_false (fun h => hd (h ▸ hmark))
        (not_or.2 ⟨fun h => hd (h ▸ hc), fun h => hd h.2⟩)
  · by_cases hd : d ∈ slugMarks
    · rw [if_neg hc, if_pos hd]
      exact iff_of_false (fun h => hc (h ▸ hmark))
        (not_or.2 ⟨fun h => hc (h ▸ hd), fun h => hc h.1⟩)
    · simp [hc, hd]

theorem slugChar_eq_dot_iff {c : Char} : slugChar c = '.' ↔ c = '.' := by
  unfold slugChar
  split
  · next h => exact iff_of_false (by decide) fun hdot => absurd (hdot ▸ h) (by decide)
  · exact .rfl

/-- A text up to its first dot. -/
def undotted (text : String) : List Char := text.toList.takeWhile (· != '.')

namespace Source

theorem toList_slug (s : Source) : s.slug.toList = (undotted s.path).map slugChar := by
  have hswap : (swap '\\' '_' (swap '/' '_' s.path)).toList = s.path.toList.map slugChar := by
    rw [swap, swap, String.toList_map, String.toList_map, List.map_map]
    refine List.map_congr_left fun c _ => ?_
    by_cases hslash : c = '/'
    · simp [slugChar, slugMarks, hslash]
    · by_cases hback : c = '\\'
      · simp [slugChar, slugMarks, hback]
      · simp [slugChar, slugMarks, hslash, hback]
  have hdot : (fun c => c != '.') ∘ slugChar = fun c => c != '.' := by
    funext c
    exact congrArg not (decide_eq_decide.2 slugChar_eq_dot_iff)
  rw [slug, before, String.toList_ofList, hswap, List.takeWhile_map, hdot, undotted]

/-- Two slugs are the same if the paths agree up to their first dots, but for separators and
underscores. -/
theorem slug_eq_iff {s t : Source} :
    s.slug = t.slug ↔ List.Forall₂ SlugAlike (undotted s.path) (undotted t.path) := by
  rw [← String.toList_inj, toList_slug, toList_slug, ← List.forall₂_eq_eq_eq,
    List.forall₂_map_left_iff, List.forall₂_map_right_iff]
  simp only [slugChar_eq_iff]

/-- The stem of the source holds no dot and no underscore. -/
structure Unmarked (s : Source) : Prop where
  dot : '.' ∉ s.stem.toList
  underscore : '_' ∉ s.stem.toList

/-- Of a path whose stem holds no dot, the stem is what comes before the first dot. -/
theorem Unmarked.undotted_path {s : Source} (unmarked : s.Unmarked) :
    undotted s.path = s.stem.toList := by
  obtain ⟨extension, hpath, -, hdot⟩ := s.exists_extension
  have hstem : ∀ c ∈ s.stem.toList, (c != '.') = true := fun c hc =>
    bne_iff_ne.2 fun heq => unmarked.dot (heq ▸ hc)
  rw [undotted, hpath, String.toList_append, List.takeWhile_append_of_pos hstem]
  cases hextension : extension.toList with
  | nil => rw [List.takeWhile_nil, List.append_nil]
  | cons c rest =>
    rw [hdot c (by rw [hextension]; rfl), List.takeWhile_cons, if_neg (by decide), List.append_nil]

/-- Characters of which only slashes are marks are told apart. -/
theorem eq_of_alike {l m : List Char} (alike : List.Forall₂ SlugAlike l m)
    (hl : ∀ c ∈ l, c ∈ slugMarks → c = '/') (hm : ∀ c ∈ m, c ∈ slugMarks → c = '/') : l = m := by
  induction alike with
  | nil => rfl
  | @cons c d l m same rest ih =>
    have hcd : c = d := by
      rcases same with heq | ⟨hc, hd⟩
      · exact heq
      · rw [hl c List.mem_cons_self hc, hm d List.mem_cons_self hd]
    rw [hcd, ih (fun x hx => hl x (List.mem_cons_of_mem _ hx))
      fun x hx => hm x (List.mem_cons_of_mem _ hx)]

/-- In the stem of a source without marks and backslashes only slashes are marks. -/
theorem Unmarked.eq_slash {s : Source} (unmarked : s.Unmarked) (unslashed : '\\' ∉ s.path.toList)
    {c : Char} (hc : c ∈ s.stem.toList) (hmark : c ∈ slugMarks) : c = '/' := by
  obtain ⟨extension, hpath, -⟩ := s.exists_extension
  rw [hpath, String.toList_append] at unslashed
  rcases List.mem_cons.1 hmark with rfl | hmark
  · rfl
  rcases List.mem_cons.1 hmark with rfl | hmark
  · exact absurd (List.mem_append_left _ hc) unslashed
  · exact absurd (List.mem_singleton.1 hmark ▸ hc) unmarked.underscore

/-- Sources without marks and backslashes that have one slug have one stem. -/
theorem Unmarked.stem_eq {s t : Source} (hs : s.Unmarked) (ht : t.Unmarked)
    (unslashed : '\\' ∉ s.path.toList) (unslashed' : '\\' ∉ t.path.toList) (h : s.slug = t.slug) :
    s.stem = t.stem := by
  rw [slug_eq_iff, hs.undotted_path, ht.undotted_path] at h
  exact String.toList_inj.1 (eq_of_alike h (fun _ hc => hs.eq_slash unslashed hc)
    fun _ hc => ht.eq_slash unslashed' hc)

end Source

/-- No path of a source of a project holds a backslash. -/
theorem unslashed_collectSources {t : Tree} {root : Path} {settings : Settings} {scanBuild : Bool}
    {s : Source} (h : s ∈ collectSources t root settings scanBuild) : '\\' ∉ s.path.toList := by
  obtain ⟨f, -, hf⟩ := List.mem_filterMap.1 ((withoutRepeats_spec [] _).2 s h).1
  obtain ⟨language, -, rfl⟩ := Found.exists_language hf
  exact f.path.unslashed_slashed

namespace Emitter

/-! ## Examples in a graph -/

/-- The flag that tells an example its name. -/
def nameFlag (e : Emitter) (s : Source) : String :=
  e.toolchain.defineFlag (e.settings.macroName "EXAMPLE_NAME") (some s.slug)

variable {e : Emitter} {variants : VariantSet} {sources : List Source} {g : Graph} {v : Variant}

theorem nameFlag_eq_iff {s t : Source} : e.nameFlag s = e.nameFlag t ↔ s.slug = t.slug := by
  rw [nameFlag, nameFlag, Toolchain.defineFlag, Toolchain.defineFlag]
  exact String.append_right_inj _

/-- An example takes part in a runner: its object is compiled with its name and linked. -/
structure TakesPart (e : Emitter) (g : Graph) (v : Variant) (s : Source) : Prop where
  /-- The object is compiled from the source. -/
  compiled : ∃ compile, g.edge? (e.objectTarget v.name s) = some compile ∧
    compile.inputs = [s.path] ∧ compile.bindings = [("flags", (e.sourceFlags v s).text)]
  /-- Among the flags for the source is its name. -/
  named : e.nameFlag s ∈ (e.sourceFlags v s).source
  /-- The runner is linked from the object. -/
  linked : ∃ link, g.edge? (e.runnerTarget v.name) = some link ∧
    e.objectTarget v.name s ∈ link.inputs

theorem Emitted.takesPart (emitted : e.Emitted variants sources g) (hv : v ∈ variants.toList)
    {s : Source} (hs : s ∈ sources) (hcompilable : e.compilable s = true)
    (hexample : s.isExample = true) : e.TakesPart g v s := by
  have found : ∀ {edge : Edge}, edge ∈ e.variantEdges sources v →
      g.edge? edge.target = some edge := emitted.edge?_of_mem_variantEdges hv
  refine ⟨⟨e.compileEdge v s, found (compileEdge_mem hs hcompilable), rfl, rfl⟩, ?_,
    ⟨e.linkEdge v _, found linkEdge_mem, ?_⟩⟩
  · have hsource : (e.sourceFlags v s).source = e.harnessFlags s := rfl
    rw [hsource, harnessFlags, if_pos hexample]
    exact List.mem_append_left _ (List.mem_append_left _ (List.mem_cons_of_mem _ List.mem_cons_self))
  · exact List.mem_append_left _ (List.mem_map_of_mem (List.mem_filter.2 ⟨hs, hcompilable⟩))

/-- Sources that are compiled for one graph have different stems. -/
theorem Emitted.stem_ne (emitted : e.Emitted variants sources g) (hnames : MatrixNames variants)
    {s t : Source} (hs : s ∈ sources) (ht : t ∈ sources) (hsc : e.compilable s = true)
    (htc : e.compilable t = true) (hne : s ≠ t) : s.stem ≠ t.stem := by
  have hnodup : ((sources.filter e.compilable).map (·.stem)).Nodup :=
    (List.nodup_append.1 (emitted.nodup_stems hnames)).1
  exact fun heq => hne (List.inj_on_of_nodup_map hnodup (List.mem_filter.2 ⟨hs, hsc⟩)
    (List.mem_filter.2 ⟨ht, htc⟩) heq)

/-- Two examples of a project that are compiled for one runner.  Both are compiled with their names and
linked, whatever tree, settings, compiler and variant it is.  Their names are the same exactly if
their paths agree up to their first dots, but for separators and underscores.  They are different
if no stem holds a dot or an underscore. -/
theorem exampleNames_of_emit (e : Emitter) (tc : Toolchain) (b : Baseline) (host : Host)
    (settings : Settings) (verdict : FlagSet → Bool) {variants : VariantSet}
    (matrix : variants = (buildMatrix tc b host settings).answer verdict) (t : Tree) (root : Path)
    (scanBuild : Bool)
    (h : e.emit variants (collectSources t root e.settings scanBuild) = .ok g)
    (hv : v ∈ variants.toList) {s s' : Source} (hne : s ≠ s')
    (hs : s ∈ collectSources t root e.settings scanBuild)
    (hs' : s' ∈ collectSources t root e.settings scanBuild)
    (hcompilable : e.compilable s = true ∧ e.compilable s' = true)
    (hexample : s.isExample = true ∧ s'.isExample = true) :
    e.TakesPart g v s ∧ e.TakesPart g v s' ∧
      (e.nameFlag s = e.nameFlag s' ↔
        List.Forall₂ SlugAlike (undotted s.path) (undotted s'.path)) ∧
      (s.Unmarked → s'.Unmarked → e.nameFlag s ≠ e.nameFlag s') := by
  have hnames : MatrixNames variants := matrix ▸ matrixNames_answer tc b host settings verdict
  obtain ⟨emitted, -⟩ := emitted_of_emit h
  refine ⟨emitted.takesPart hv hs hcompilable.1 hexample.1,
    emitted.takesPart hv hs' hcompilable.2 hexample.2,
    nameFlag_eq_iff.trans Source.slug_eq_iff, fun unmarked unmarked' heq => ?_⟩
  exact emitted.stem_ne hnames hs hs' hcompilable.1 hcompilable.2 hne
    (unmarked.stem_eq unmarked' (unslashed_collectSources hs) (unslashed_collectSources hs')
      (nameFlag_eq_iff.1 heq))

end Emitter

/-! ## Examples of one name -/

/-- A project with three examples. -/
def clashTree : Tree :=
  ((((Tree.empty.put ["examples"] .directory).put ["examples", "a"] .directory).put
    ["examples", "a", "b.c"] (.file .empty)).put ["examples", "a_b.c"] (.file .empty)).put
      ["examples", "c.c"] (.file .empty)

/-- The emitter of the project. -/
def clashEmitter : Emitter :=
  { Emitter.smallEmitter with settings := { sourceDirs := [⟨"examples"⟩] } }

/-- The examples of the project. -/
def clashSources : List Source :=
  [⟨"examples/a/b.c", .c, true, false⟩, ⟨"examples/a_b.c", .c, true, false⟩,
    ⟨"examples/c.c", .c, true, false⟩]

theorem collectSources_clashTree :
    collectSources clashTree ⟨""⟩ clashEmitter.settings false = clashSources := by
  have hdirectory : clashTree.directory? (Path.join ⟨""⟩ ⟨"examples"⟩) = some ["examples"] :=
    Tree.directory?_of_steps (by decide) rfl (by decide) (by decide)
      (by decide) (by decide)
  have hbelow : clashTree.below ["examples"] =
      [(["a"], .directory), (["a", "b.c"], .file .empty), (["a_b.c"], .file .empty),
        (["c.c"], .file .empty)] := rfl
  have hfiles : filesBelow clashTree ⟨""⟩ ⟨"examples"⟩ =
      [⟨⟨"examples/a/b.c"⟩, "b.c", .empty⟩, ⟨⟨"examples/a_b.c"⟩, "a_b.c", .empty⟩,
        ⟨⟨"examples/c.c"⟩, "c.c", .empty⟩] := by
    rw [filesBelow, hdirectory]
    dsimp only
    rw [hbelow]
    rfl
  rw [collectSources, show clashEmitter.settings.sourceDirs = [⟨"examples"⟩] from rfl,
    List.flatMap_singleton, hfiles]
  decide +kernel

namespace Emitter

theorem emit_clashSources {e : Emitter} {variants : VariantSet} (hnames : MatrixNames variants)
    (once : (e.stems clashSources).Nodup) (hdir : e.buildDir = "out") :
    ∃ g, e.emit variants clashSources = .ok g := by
  refine emit_outside hnames (by decide) (fun s hs => ?_) once ?_
  · exact unmade_collectSources (collectSources_clashTree.symm ▸ hs)
  · rw [hdir]
    decide

theorem exists_graph_clashTree :
    ∃ g, clashEmitter.emit ((buildMatrix clashEmitter.toolchain {} {} {}).answer fun _ => true)
      (collectSources clashTree ⟨""⟩ clashEmitter.settings false) = .ok g := by
  rw [collectSources_clashTree]
  exact emit_clashSources (matrixNames_answer clashEmitter.toolchain {} {} {} fun _ => true)
    (by decide) rfl

/-- An example in a directory and one beside it have different names. -/
theorem exampleNames_clashTree :
    ∃ g v, clashEmitter.emit ((buildMatrix clashEmitter.toolchain {} {} {}).answer fun _ => true)
        (collectSources clashTree ⟨""⟩ clashEmitter.settings false) = .ok g ∧
      v.name = variantName "default" .debug ∧
      clashEmitter.TakesPart g v ⟨"examples/a/b.c", .c, true, false⟩ ∧
      clashEmitter.TakesPart g v ⟨"examples/c.c", .c, true, false⟩ ∧
      clashEmitter.nameFlag ⟨"examples/a/b.c", .c, true, false⟩ ≠
        clashEmitter.nameFlag ⟨"examples/c.c", .c, true, false⟩ := by
  have hnames := matrixNames_answer clashEmitter.toolchain {} {} {} fun _ => true
  obtain ⟨g, hemit⟩ := exists_graph_clashTree
  obtain ⟨v, hv, hname⟩ := List.mem_map.1 (hnames.own ▸ hnames.default)
  have hmem : ∀ s ∈ clashSources, s ∈ collectSources clashTree ⟨""⟩ clashEmitter.settings false :=
    fun s hs => collectSources_clashTree.symm ▸ hs
  obtain ⟨first, second, -, differ⟩ := exampleNames_of_emit clashEmitter clashEmitter.toolchain {} {} {}
    (fun _ => true) rfl clashTree ⟨""⟩ false hemit hv (by decide)
    (hmem ⟨"examples/a/b.c", .c, true, false⟩ (by decide))
    (hmem ⟨"examples/c.c", .c, true, false⟩ (by decide)) (by decide) (by decide)
  exact ⟨g, v, hemit, hname, first, second,
    differ ⟨by decide +kernel, by decide +kernel⟩ ⟨by decide +kernel, by decide +kernel⟩⟩

/-- An example in a directory, and one that is named after it and its directory, take part in one
runner under one name. -/
theorem exampleNames_clash :
    ∃ g, ∃ v ∈ ((buildMatrix clashEmitter.toolchain {} {} {}).answer fun _ => true).toList,
      ∃ s ∈ collectSources clashTree ⟨""⟩ clashEmitter.settings false,
      ∃ s' ∈ collectSources clashTree ⟨""⟩ clashEmitter.settings false,
        clashEmitter.emit ((buildMatrix clashEmitter.toolchain {} {} {}).answer fun _ => true)
            (collectSources clashTree ⟨""⟩ clashEmitter.settings false) = .ok g ∧
          s ≠ s' ∧ s.isExample = true ∧ s'.isExample = true ∧
          clashEmitter.TakesPart g v s ∧ clashEmitter.TakesPart g v s' ∧
          s.slug = s'.slug ∧ clashEmitter.nameFlag s = clashEmitter.nameFlag s' := by
  have hnames := matrixNames_answer clashEmitter.toolchain {} {} {} fun _ => true
  have hclash : (Source.mk "examples/a/b.c" .c true false).slug =
      (Source.mk "examples/a_b.c" .c true false).slug := by
    rw [← String.toList_inj, Source.toList_slug, Source.toList_slug]
    decide +kernel
  obtain ⟨g, hemit⟩ := exists_graph_clashTree
  obtain ⟨emitted, -⟩ := emitted_of_emit hemit
  obtain ⟨v, hv, -⟩ := List.mem_map.1 (hnames.own ▸ hnames.default)
  have hmem : ∀ s ∈ clashSources, s ∈ collectSources clashTree ⟨""⟩ clashEmitter.settings false :=
    fun s hs => collectSources_clashTree.symm ▸ hs
  have hs := hmem ⟨"examples/a/b.c", .c, true, false⟩ (by decide)
  have hs' := hmem ⟨"examples/a_b.c", .c, true, false⟩ (by decide)
  exact ⟨g, v, hv, _, hs, _, hs', hemit, by decide, rfl, rfl, emitted.takesPart hv hs rfl rfl,
    emitted.takesPart hv hs' rfl rfl, hclash, nameFlag_eq_iff.2 hclash⟩

end Emitter

end BuildMatrix
