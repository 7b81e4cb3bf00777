import BuildMatrix.Help
import BuildMatrix.Proofs.Emission.Isolation
import Mathlib.Data.List.Count

/-!
# The list of targets and the graph

The list of targets is a text, and `listedTargets` reads the targets back from it: what stands behind
the indentation of a line.  The names of the matrix hold nothing that ends a line, so each target
that was written is read (`listedTargets_renderHelp`).

List and graph come from the same variants.  The edges that run a variant are found in the graph in
the order of the variants (`Emitted.runTargets`), which is the order of their names, and behind the
targets that are always the same they are what is listed.

The list is not quite true.  Two of the targets that it always shows, `clean` and `help`, are no names
of variants and no targets that run several, so no edge makes them, whatever the project is
(`target_iff_of_common`).
-/

namespace BuildMatrix

open Text

/-! ## Reading a list of targets -/

/-- What stands before a target in the list. -/
def indentation : String := "    "

/-- The target that a line of the list shows, if it shows one. -/
def listedTarget? (line : String) : Option String :=
  if beginsWith indentation line then some (String.ofList (line.toList.drop indentation.length))
  else none

/-- The targets that a text lists, in order. -/
def listedTargets (text : String) : List String := (lines text).filterMap listedTarget?

/-- A text that is read back as a line when a line feed is put behind it. -/
structure OneLine (line : String) : Prop where
  noFeed : '\n' ∉ line.toList
  noReturn : line.toList.getLast? ≠ some '\r'

instance (line : String) : Decidable (OneLine line) :=
  decidable_of_iff ('\n' ∉ line.toList ∧ line.toList.getLast? ≠ some '\r')
    ⟨fun h => ⟨h.1, h.2⟩, fun h => ⟨h.noFeed, h.noReturn⟩⟩

theorem lines_append {line : String} (one : OneLine line) (rest : String) :
    lines (line ++ "\n" ++ rest) = line :: lines rest := by
  have hlist : (line ++ "\n" ++ rest).toList = line.toList ++ '\n' :: rest.toList := by simp
  have hkept : dropReturn line.toList = line.toList := if_neg one.noReturn
  obtain ⟨piece, pieces, hrest⟩ :=
    List.exists_cons_of_ne_nil (List.splitOn_ne_nil '\n' rest.toList)
  unfold lines
  rw [hlist, List.splitOn_append_cons_self, List.splitOn_eq_singleton one.noFeed, hrest,
    List.singleton_append]
  simp only [linesOfPieces, List.dropLast_cons_cons, List.getLast?_cons_cons, List.map_cons,
    List.cons_append, hkept, String.ofList_toList]

/-- Lines that are written one after the other are read back. -/
theorem lines_join {written : List String} (one : ∀ line ∈ written, OneLine line) :
    lines (String.join (written.map (· ++ "\n"))) = written := by
  induction written with
  | nil => rfl
  | cons line rest ih =>
    rw [List.map_cons, String.join_cons, lines_append (one line List.mem_cons_self),
      ih fun other hother => one other (List.mem_cons_of_mem _ hother)]

theorem listedTarget?_indented (target : String) :
    listedTarget? (indentation ++ target) = some target := by
  have hlist : (indentation ++ target).toList = indentation.toList ++ target.toList :=
    String.toList_append
  have hbegins : beginsWith indentation (indentation ++ target) = true := by
    rw [beginsWith_iff, hlist]
    exact List.prefix_append _ _
  have hdrop : (indentation.toList ++ target.toList).drop indentation.length = target.toList :=
    List.drop_left' rfl
  rw [listedTarget?, if_pos hbegins, hlist, hdrop, String.ofList_toList]

/-- Targets that are written with the indentation are read back. -/
theorem filterMap_indented (targets : List String) :
    (targets.map (indentation ++ ·)).filterMap listedTarget? = targets := by
  rw [List.filterMap_map]
  calc targets.filterMap (listedTarget? ∘ (indentation ++ ·))
    _ = targets.filterMap some := List.filterMap_congr fun target _ => listedTarget?_indented target
    _ = targets := List.filterMap_some

/-! ## The list of a set of variants -/

/-- The lines of the list for a set of variants. -/
def helpLines (variants : VariantSet) : List String :=
  ["", "Available targets:", ""] ++ commonTargets.map (indentation ++ ·) ++ [""] ++
    variants.names.map fun name => indentation ++ runTarget name

theorem renderHelp_eq (variants : VariantSet) :
    renderHelp variants = String.join ((helpLines variants).map (· ++ "\n")) := by
  have hcommon : commonTargets.map helpLine =
      (commonTargets.map (indentation ++ ·)).map (· ++ "\n") := by
    rw [List.map_map]
    rfl
  have hruns : (variants.names.map fun name => helpLine (runTarget name)) =
      (variants.names.map fun name => indentation ++ runTarget name).map (· ++ "\n") := by
    rw [List.map_map]
    rfl
  have hhead : String.join (["", "Available targets:", ""].map (· ++ "\n")) =
      "\nAvailable targets:\n\n" := by decide
  have hblank : String.join ([""].map (· ++ "\n")) = "\n" := by decide
  unfold renderHelp helpLines
  simp only [hcommon, hruns, List.map_append, String.join_append, hhead, hblank]

/-- What is written into the list for variants of the matrix is read back from it. -/
theorem listedTargets_renderHelp {variants : VariantSet} (hnames : MatrixNames variants) :
    listedTargets (renderHelp variants) = commonTargets ++ variants.names.map runTarget := by
  have hone : ∀ line ∈ helpLines variants, OneLine line := by
    intro line hline
    rcases List.mem_append.1 hline with hline | hline
    · have all : ∀ line ∈ ["", "Available targets:", ""] ++ commonTargets.map (indentation ++ ·) ++ [""],
          OneLine line := by decide
      exact all line hline
    · obtain ⟨name, hname, rfl⟩ := List.mem_map.1 hline
      have plain : ∀ c ∉ nameLetters ++ (indentation ++ "run-").toList,
          c ∉ (indentation ++ runTarget name).toList := by
        intro c hc
        rw [List.mem_append, not_or] at hc
        rw [runTarget, ← String.append_assoc, String.toList_append, List.mem_append, not_or]
        exact ⟨hc.2, not_mem_of_mem_variantNames (hnames.known name hname) hc.1⟩
      exact ⟨plain _ (by decide), fun hlast => plain _ (by decide) (List.mem_of_getLast? hlast)⟩
  have hruns : (variants.names.map fun name => indentation ++ runTarget name) =
      (variants.names.map runTarget).map (indentation ++ ·) := by
    rw [List.map_map]
    rfl
  have hhead : ["", "Available targets:", ""].filterMap listedTarget? = [] := by decide
  have hblank : [""].filterMap listedTarget? = [] := by decide
  rw [listedTargets, renderHelp_eq, lines_join hone, helpLines, hruns, List.filterMap_append,
    List.filterMap_append, List.filterMap_append, filterMap_indented, filterMap_indented, hhead, hblank,
    List.nil_append, List.append_nil]

/-! ## The edges that run variants -/

theorem runTarget_lt {v w : String} (h : v < w) : runTarget v < runTarget w := by
  rw [String.lt_iff] at h ⊢
  rw [runTarget, runTarget, String.toList_append, String.toList_append]
  exact List.append_left_lt h

theorem VariantSet.pairwise_names (variants : VariantSet) : variants.names.Pairwise (· < ·) :=
  List.pairwise_map.2 variants.byName.sorted

namespace Emitter

variable {e : Emitter} {variants : VariantSet} {sources : List Source} {g : Graph}

/-- Of the edges of a variant one runs it. -/
theorem filter_run_variantEdges (v : Variant) :
    (e.variantEdges sources v).filter (·.rule = runRuleName) = [e.runEdge v] := by
  have hcompiled : ((sources.filter e.compilable).map (e.compileEdge v)).filter
      (·.rule = runRuleName) = [] := by
    rw [List.filter_eq_nil_iff]
    intro edge hedge
    obtain ⟨s, -, rfl⟩ := List.mem_map.1 hedge
    exact show ¬ decide (Toolchain.compileRuleName = runRuleName) = true by decide
  have hregistration : ∀ objects, (if e.baseline.manualRegistration
      then e.registrationEdges v objects else []).filter (·.rule = runRuleName) = [] := by
    intro objects
    split
    · rfl
    · rfl
  rw [variantEdges, List.filter_append, List.filter_append, hcompiled, hregistration]
  rfl

theorem filter_run_aggregateEdges :
    (e.aggregateEdges variants).filter (·.rule = runRuleName) = [] := by
  unfold aggregateEdges
  split
  · rfl
  · rfl

/-- The edges that run a variant make the targets of the variants, in the order of their names. -/
theorem Emitted.runTargets (emitted : e.Emitted variants sources g) (hnames : MatrixNames variants) :
    (g.edgesWithRule runRuleName).map Edge.target = variants.names.map runTarget := by
  have hedges : g.edgesWithRule runRuleName = variants.toList.map e.runEdge := by
    rw [Graph.edgesWithRule, emitted.edges, allEdges, List.filter_append, filter_run_aggregateEdges,
      List.append_nil, List.filter_flatMap, List.map_eq_flatMap]
    exact List.flatMap_congr fun v _ => filter_run_variantEdges v
  rw [hedges, ← hnames.own, List.map_map, List.map_map]
  rfl

/-! ## What the list promises -/

/-- The entries of the list that no edge makes.  The first stands for asking for nothing; the others
read like targets. -/
def unmadeTargets : List String := ["(default)", "clean", "help"]

/-- Of the targets that the list always shows, those that run several variants are made. -/
theorem Emitted.target_iff_of_common (emitted : e.Emitted variants sources g)
    (hnames : MatrixNames variants) {target : String} (h : target ∈ commonTargets) :
    target ∈ g.targets ↔ target ∉ unmadeTargets := by
  have hname : ∀ target ∈ commonTargets, ¬ (target ∈ variantNames ∨
      target ∈ variantNames.map runTarget ∨ '/' ∈ target.toList) := by decide
  have hmade : ∀ target ∈ commonTargets, (target ∈ [allTarget, moreTarget] ↔ target ∉ unmadeTargets) ∧
      (target ∈ aggregateNames ↔ target ∈ [allTarget, moreTarget]) := by decide
  rw [Graph.targets, emitted.edges, targets_allEdges, List.mem_append, ← (hmade target h).1]
  constructor
  · rintro (hvariant | haggregate)
    · obtain ⟨v, hv, hvariant⟩ := List.mem_flatMap.1 hvariant
      have hknown := name_mem_variantNames hnames hv
      refine absurd ?_ (hname target h)
      rcases belongs_of_mem_targets hvariant with rfl | rfl | ⟨rest, rfl⟩
      · exact .inl hknown
      · exact .inr (.inl (List.mem_map_of_mem hknown))
      · exact .inr (.inr (slash_mem_inside v.name rest))
    · exact (hmade target h).2.1 (mem_aggregateNames_of_mem haggregate)
  · intro hmore
    rw [targets_aggregateEdges]
    exact .inr (List.mem_append_right _ hmore)

/-- All targets that run a variant are made. -/
theorem Emitted.target_iff_of_run (emitted : e.Emitted variants sources g)
    (hnames : MatrixNames variants) {target : String} (h : target ∈ variants.names.map runTarget) :
    target ∈ g.targets ↔ target ∉ unmadeTargets := by
  have hname : ∀ name ∈ variantNames, runTarget name ∉ unmadeTargets := by decide
  refine iff_of_true ?_ ?_
  · rw [← emitted.runTargets hnames] at h
    exact List.map_subset _ (List.filter_subset_self _) h
  · obtain ⟨name, hmem, rfl⟩ := List.mem_map.1 h
    exact hname name (hnames.known name hmem)

/-- No target is listed twice. -/
theorem nodup_listed (hnames : MatrixNames variants) :
    (commonTargets ++ variants.names.map runTarget).Nodup := by
  have hcommon : ∀ name ∈ variantNames, runTarget name ∉ commonTargets := by decide
  refine List.nodup_append.2 ⟨by decide, ?_, ?_⟩
  · exact variants.nodup_names.map fun v w => runTarget_inj
  · rintro a ha b hb rfl
    obtain ⟨name, hname, rfl⟩ := List.mem_map.1 hb
    exact hcommon name (hnames.known name hname) ha

/-- The list of targets against the graph, for all variants of the matrix and all sources for which
there is a graph.  Behind the targets that are always shown, the list shows the edges that run a
variant, each once and by name.  All targets that it shows are made by an edge, but for three. -/
theorem listing_of_emit (e : Emitter) (tc : Toolchain) (b : Baseline) (host : Host)
    (settings : Settings) (verdict : FlagSet → Bool) {variants : VariantSet}
    (matrix : variants = (buildMatrix tc b host settings).answer verdict) (sources : List Source)
    {g : Graph} (h : e.emit variants sources = .ok g) :
    listedTargets (renderHelp variants) =
        commonTargets ++ (g.edgesWithRule runRuleName).map Edge.target ∧
      ((g.edgesWithRule runRuleName).map Edge.target).Pairwise (· < ·) ∧
      (∀ edge ∈ g.edges, edge.rule = runRuleName →
        (listedTargets (renderHelp variants)).count edge.target = 1) ∧
      ∀ target ∈ listedTargets (renderHelp variants),
        (∃ edge ∈ g.edges, edge.target = target) ↔
          target ≠ "(default)" ∧ target ≠ "clean" ∧ target ≠ "help" := by
  have hnames : MatrixNames variants := matrix ▸ matrixNames_answer tc b host settings verdict
  obtain ⟨emitted, -⟩ := emitted_of_emit h
  have hruns := emitted.runTargets hnames
  have hlisted := listedTargets_renderHelp hnames
  have hunmade : ∀ target, target ∉ unmadeTargets ↔
      target ≠ "(default)" ∧ target ≠ "clean" ∧ target ≠ "help" := by
    intro target
    simp [unmadeTargets]
  rw [hlisted, hruns]
  refine ⟨rfl, ?_, fun edge hedge hrun => ?_, fun target htarget => ?_⟩
  · exact List.pairwise_map.2 (variants.pairwise_names.imp runTarget_lt)
  · refine List.nodup_iff_count_eq_one.1 (nodup_listed hnames) _ (List.mem_append_right _ ?_)
    rw [← hruns]
    exact List.mem_map_of_mem (List.mem_filter.2 ⟨hedge, decide_eq_true hrun⟩)
  · rw [← hunmade, ← List.mem_map]
    rcases List.mem_append.1 htarget with hcommon | hrun
    · exact emitted.target_iff_of_common hnames hcommon
    · exact emitted.target_iff_of_run hnames hrun

/-- The list for the small compiler's graph ends in the two variants that it runs. -/
theorem listing_mixedSources :
    ∃ g, smallEmitter.emit
        ((buildMatrix smallEmitter.toolchain {} {} {}).answer fun _ => true) mixedSources = .ok g ∧
      (g.edgesWithRule runRuleName).map Edge.target = ["run-default-debug", "run-default-release"] ∧
      ∃ edge ∈ g.edges, edge.target = moreTarget := by
  obtain ⟨g, hemit⟩ := exists_graph_mixedSources
  have hlisting := listing_of_emit _ _ _ _ _ _ rfl _ hemit
  have hlisted : listedTargets (renderHelp
      ((buildMatrix smallEmitter.toolchain {} {} {}).answer fun _ => true)) =
        commonTargets ++ ["run-default-debug", "run-default-release"] := by decide +kernel
  refine ⟨g, hemit, List.append_cancel_left (hlisting.1.symm.trans hlisted), ?_⟩
  refine (hlisting.2.2.2 moreTarget ?_).2 (by decide)
  rw [hlisted]
  decide

/-- The list shows `clean` and `help` for a graph that has neither. -/
theorem listing_without_edges :
    ∃ g, smallEmitter.emit
        ((buildMatrix smallEmitter.toolchain {} {} {}).answer fun _ => true) mixedSources = .ok g ∧
      ∀ target ∈ ["clean", "help"],
        target ∈ listedTargets (renderHelp
          ((buildMatrix smallEmitter.toolchain {} {} {}).answer fun _ => true)) ∧
        ¬ ∃ edge ∈ g.edges, edge.target = target := by
  have hnames := matrixNames_answer smallEmitter.toolchain {} {} {} fun _ => true
  obtain ⟨g, hemit⟩ := exists_graph_mixedSources
  obtain ⟨emitted, -⟩ := emitted_of_emit hemit
  refine ⟨g, hemit, fun target htarget => ?_⟩
  have hentry : ∀ target ∈ ["clean", "help"], target ∈ commonTargets ∧ target ∈ unmadeTargets := by
    decide
  obtain ⟨hcommon, hunmade⟩ := hentry target htarget
  refine ⟨?_, fun hmade => ?_⟩
  · rw [listedTargets_renderHelp hnames]
    exact List.mem_append_left _ hcommon
  · exact (emitted.target_iff_of_common hnames hcommon).1 (List.mem_map.2 hmade) hunmade

end Emitter

end BuildMatrix
