import BuildMatrix.Proofs.Path.Respelled
import BuildMatrix.Proofs.Source.Origin
import BuildMatrix.Proofs.Tree.Beginning

/-!
# Sources under other spellings of the directories

A source directory can be respelled without a trace in the sources if it is relative and the root is
not empty, `.` in front included (`SameDirectory`).  The paths of its files are then put together from
the steps that lead to them from the root.  A path to which there is no way from the root is shown as
it is spelled, and so an absolute directory keeps its spelling, unless the root is absolute and does
not climb.

The directory of the examples is not followed but compared with the paths, component by component.
Seen from a root that is not empty no path begins with `.`, so with a `.` in front this directory has
no examples: they are compiled as other sources are, and a run that only analyses does not leave them
out.

Both are said by `collectSources_respelled`, and `respelling_tells` has a spelling for each of its
conditions that shows without it.
-/

namespace BuildMatrix

open BuildMatrix.Path (Respelled)

namespace Tree

/-- Two paths of the same components can be followed if they are short enough. -/
theorem followable_of_components {p q : Path} (h : p.components = q.components)
    (hshort : p.text.utf8ByteSize ≤ pathLimit → q.text.utf8ByteSize ≤ pathLimit)
    (followable : Followable p) : Followable q := by
  refine ⟨fun hempty => followable.not_empty ?_, fun hnul => followable.no_nul ?_,
    hshort followable.short⟩
  · exact Path.components_eq_nil_iff.1 (h.trans (Path.components_eq_nil_iff.2 hempty))
  · rw [List.contains_iff_mem] at hnul ⊢
    exact Path.mem_text_of_steps (by decide) (by decide) (Path.components_eq_iff.1 h).2.symm hnul

theorem directory?_of_not_followable {t : Tree} {p : Path} (h : ¬ Followable p) :
    t.directory? p = none := by
  cases hdir : t.directory? p with
  | none => rfl
  | some dir =>
    exact absurd (followable_of_ok (find?_eq_some_iff.1 (directory?_eq_some_iff.1 hdir))) h

/-- They lead to the same directory if neither or both are too long. -/
theorem directory?_of_components_of_short (t : Tree) {p q : Path}
    (h : p.components = q.components)
    (hshort : p.text.utf8ByteSize ≤ pathLimit ↔ q.text.utf8ByteSize ≤ pathLimit) :
    t.directory? p = t.directory? q := by
  by_cases hp : Followable p
  · exact directory?_of_components t hp (followable_of_components h hshort.1 hp) h
  · rw [directory?_of_not_followable hp, directory?_of_not_followable
      (mt (followable_of_components h.symm hshort.2) hp)]

end Tree

/-! ## Source directories -/

/-- A source directory is spelled in a way that leads to the same files under the same paths. -/
structure SameDirectory (root d d' : Path) : Prop where
  respelled : Respelled d d'
  /-- A `.` in front makes a difference where the root is empty. -/
  lead : root.text = "" → d.lead = d'.lead
  /-- An absolute directory is shown as spelled, unless there is a way to it from the root. -/
  rooted : d.isAbsolute = true → d = d' ∨ root.isAbsolute = true ∧ .up ∉ root.components
  /-- Neither is too long to be followed, or both are. -/
  short : (root.join d).text.utf8ByteSize ≤ Tree.pathLimit ↔
    (root.join d').text.utf8ByteSize ≤ Tree.pathLimit

theorem SameDirectory.refl (root d : Path) : SameDirectory root d d :=
  ⟨⟨rfl, rfl⟩, fun _ => rfl, fun _ => .inl rfl, Iff.rfl⟩

/-- The walk finds the same files. -/
theorem SameDirectory.filesBelow {root d d' : Path} (same : SameDirectory root d d') (t : Tree) :
    filesBelow t root d = filesBelow t root d' := by
  have hcomponents := same.respelled.components_join same.lead
  have hdir := t.directory?_of_components_of_short hcomponents same.short
  rw [filesBelow_eq, filesBelow_eq, hdir]
  have hpath : ∀ names : List String, (names.foldl Path.child (root.join d)).relativeTo root =
      (names.foldl Path.child (root.join d')).relativeTo root := by
    intro names
    by_cases habsolute : d.isAbsolute = true
    · rcases same.rooted habsolute with rfl | ⟨hroot, hup⟩
      · rfl
      · exact Path.relativeTo_below (Path.placed_join_of_absolute habsolute hroot hup) hcomponents _
    · exact Path.relativeTo_below (Path.placed_join_of_relative habsolute) hcomponents _
  have hfound : foundOf root (root.join d) = foundOf root (root.join d') := by
    funext e
    rw [foundOf, foundOf, hpath]
  rw [hfound]

/-! ## The directory of the examples -/

/-- The source, taken for one that is no example. -/
def Source.asOther (s : Source) : Source := { s with isExample := false, mainVoid := false }

theorem withoutRepeats_map_asOther (seen : List String) (sources : List Source) :
    withoutRepeats seen (sources.map Source.asOther) =
      (withoutRepeats seen sources).map Source.asOther := by
  induction sources generalizing seen with
  | nil => rfl
  | cons s rest ih =>
    rw [List.map_cons, withoutRepeats, withoutRepeats]
    show (if s.path ∈ seen then _ else _) = _
    split
    · exact ih seen
    · rw [List.map_cons]
      exact congrArg _ (ih _)

/-- No path that is found begins with `.`, unless it stands for itself. -/
theorem Met.lead_ne {t : Tree} {root d : Path} {location base : Location} {names : List String}
    {f : Found} (met : Met t root d location base names f)
    (h : root.text = "" → d.lead ≠ [.here]) : f.path.lead ≠ [.here] := by
  have followable : Tree.Followable (root.join d) := Tree.followable_of_ok
    (Tree.find?_eq_some_iff.1 (Tree.directory?_eq_some_iff.1 met.leads))
  rw [met.spelled]
  refine Path.lead_relativeTo_below (Path.follows_join fun hempty => ⟨?_, h hempty⟩) names
  have hne := followable.not_empty
  rwa [Path.join_of_empty hempty] at hne

/-- What is below no directory of examples is taken, whatever the run, and for no example. -/
theorem source?_of_not_startsWith {settings settings' : Settings} {f : Found}
    (marker : settings'.benchmarkMarker = settings.benchmarkMarker)
    (h : f.path.startsWith settings'.examplesDir = false) (scanBuild : Bool) :
    f.source? settings' scanBuild = (f.source? settings false).map Source.asOther := by
  unfold Found.source?
  simp only [h, marker, Bool.false_eq_true, and_false, or_false, false_and, Bool.false_and]
  split
  · rfl
  · rw [Option.map_map]
    rfl

/-- Only examples have an entry point that counts. -/
theorem isExample_of_mainVoid {t : Tree} {root : Path} {settings : Settings} {scanBuild : Bool}
    {s : Source} (h : s ∈ collectSources t root settings scanBuild) (hmain : s.mainVoid = true) :
    s.isExample = true := by
  obtain ⟨-, d, -, -, -, f, -, hsource⟩ := isFileAt_of_mem h
  obtain ⟨language, -, rfl⟩ := Found.exists_language hsource
  exact (Bool.and_eq_true_iff.1 hmain).1

/-! ## Respelled settings -/

/-- The settings differ in the spelling of directories at most. -/
structure Settings.Respells (root : Path) (settings settings' : Settings) : Prop where
  /-- Each source directory stands for the same one. -/
  sourceDirs : List.Forall₂ (SameDirectory root) settings.sourceDirs settings'.sourceDirs
  examplesDir : Respelled settings.examplesDir settings'.examplesDir
  /-- All else is the same. -/
  rest : settings' =
    { settings with sourceDirs := settings'.sourceDirs, examplesDir := settings'.examplesDir }

/-- The walks find the same files. -/
theorem flatMap_filesBelow (t : Tree) {root : Path} {dirs dirs' : List Path}
    (same : List.Forall₂ (SameDirectory root) dirs dirs') :
    dirs.flatMap (filesBelow t root) = dirs'.flatMap (filesBelow t root) := by
  induction same with
  | nil => rfl
  | cons hd _ ih => rw [List.flatMap_cons, List.flatMap_cons, hd.filesBelow, ih]

section Respells

variable {t : Tree} {root : Path} {settings settings' : Settings}

/-- A directory of examples with the same components has the same examples. -/
theorem collectSources_of_components (same : settings.Respells root settings')
    (examples : settings'.examplesDir.components = settings.examplesDir.components)
    (scanBuild : Bool) :
    collectSources t root settings' scanBuild = collectSources t root settings scanBuild := by
  have marker : settings'.benchmarkMarker = settings.benchmarkMarker := by rw [same.rest]
  have hsource : ∀ f : Found, f.source? settings' scanBuild = f.source? settings scanBuild := by
    intro f
    unfold Found.source? Path.startsWith
    rw [examples, marker]
  unfold collectSources
  rw [flatMap_filesBelow t same.sourceDirs]
  exact congrArg _ (List.filterMap_congr fun f _ => hsource f)

/-- A directory of examples that begins with `.` has none. -/
theorem collectSources_of_dotted (same : settings.Respells root settings')
    (dotted : settings'.examplesDir.lead = [.here])
    (undotted : root.text = "" → ∀ d ∈ settings'.sourceDirs, d.lead ≠ [.here]) (scanBuild : Bool) :
    collectSources t root settings' scanBuild =
      (collectSources t root settings false).map Source.asOther := by
  have marker : settings'.benchmarkMarker = settings.benchmarkMarker := by rw [same.rest]
  have hsource : ∀ f ∈ settings'.sourceDirs.flatMap (filesBelow t root),
      f.source? settings' scanBuild = (f.source? settings false).map Source.asOther := by
    intro f hf
    obtain ⟨d, hd, hbelow⟩ := List.mem_flatMap.1 hf
    obtain ⟨location, base, names, met⟩ := mem_filesBelow_iff.1 hbelow
    exact source?_of_not_startsWith marker
      (Path.not_startsWith_of_lead dotted (met.lead_ne fun hempty => undotted hempty d hd)) _
  unfold collectSources
  rw [List.filterMap_congr hsource, flatMap_filesBelow t same.sourceDirs,
    ← withoutRepeats_map_asOther, List.map_filterMap]

/-- Nothing changes if a list of sources without examples is taken for one. -/
theorem map_asOther_eq_self_iff {scanBuild : Bool} :
    (collectSources t root settings scanBuild).map Source.asOther =
        collectSources t root settings scanBuild ↔
      ∀ s ∈ collectSources t root settings scanBuild, s.isExample = false := by
  constructor
  · intro h s hs
    rw [← h] at hs
    obtain ⟨s, -, rfl⟩ := List.mem_map.1 hs
    rfl
  · intro h
    refine (List.map_congr_left fun s hs => ?_).trans (List.map_id _)
    have hexample := h s hs
    have hmain : s.mainVoid = false := Bool.eq_false_iff.2 fun hmain =>
      Bool.eq_false_iff.1 hexample (isExample_of_mainVoid hs hmain)
    cases s
    cases hexample
    cases hmain
    rfl

/-- The spelling of directories does not matter, but for a `.` in front of the directory of the
examples.  With that there are no examples: everything is found that a full run finds, whatever the
run is, and nothing is marked. -/
theorem collectSources_respelled (t : Tree) (same : settings.Respells root settings')
    (scanBuild : Bool) :
    (settings'.examplesDir.lead = settings.examplesDir.lead →
      collectSources t root settings' scanBuild = collectSources t root settings scanBuild) ∧
    (settings'.examplesDir.lead = [.here] →
      (root.text = "" → ∀ d ∈ settings'.sourceDirs, d.lead ≠ [.here]) →
        collectSources t root settings' scanBuild =
            (collectSources t root settings false).map Source.asOther ∧
          (collectSources t root settings' false = collectSources t root settings false ↔
            ∀ s ∈ collectSources t root settings false, s.isExample = false)) := by
  refine ⟨fun hlead => ?_, fun dotted undotted => ?_⟩
  · have hcomponents := Path.components_eq_iff.2 ⟨hlead, same.examplesDir.steps.symm⟩
    exact collectSources_of_components same hcomponents scanBuild
  · have found := collectSources_of_dotted (t := t) same dotted undotted
    refine ⟨found scanBuild, ?_⟩
    rw [found false]
    exact map_asOther_eq_self_iff

end Respells

/-! ## A project with an example -/

/-- A project of one example. -/
def exampleTree : Tree :=
  (Tree.empty.put ["examples"] .directory).put ["examples", "a.c"]
    (.file "int main(void)".toUTF8)

/-- The settings with the examples for the only source directory, both spelled in some way. -/
def spelledSettings (sourceDir examplesDir : String) : Settings :=
  { sourceDirs := [⟨sourceDir⟩], examplesDir := ⟨examplesDir⟩ }

theorem directory?_exampleTree {p : Path} (followable : Tree.Followable p)
    (hsteps : p.steps = [.name "examples"]) : exampleTree.directory? p = some ["examples"] :=
  Tree.directory?_of_steps followable (ite_self _) hsteps (by decide) (by decide)
    (by decide)

/-- The walk finds the one file under its path from the root. -/
theorem filesBelow_exampleTree {root : Path} {sourceDir : String}
    (followable : Tree.Followable (root.join ⟨sourceDir⟩))
    (hsteps : (root.join ⟨sourceDir⟩).steps = [.name "examples"]) :
    filesBelow exampleTree root ⟨sourceDir⟩ =
      [⟨((root.join ⟨sourceDir⟩).child "a.c").relativeTo root, "a.c",
        "int main(void)".toUTF8⟩] := by
  have hbelow : exampleTree.below ["examples"] =
      [(["a.c"], .file "int main(void)".toUTF8)] := rfl
  rw [filesBelow, directory?_exampleTree followable hsteps]
  dsimp only
  rw [hbelow]
  rfl

theorem collectSources_exampleTree {root : Path} {sourceDir examplesDir : String}
    (followable : Tree.Followable (root.join ⟨sourceDir⟩))
    (hsteps : (root.join ⟨sourceDir⟩).steps = [.name "examples"]) (scanBuild : Bool) :
    collectSources exampleTree root (spelledSettings sourceDir examplesDir) scanBuild =
      (Found.source? (spelledSettings sourceDir examplesDir) scanBuild
        ⟨((root.join ⟨sourceDir⟩).child "a.c").relativeTo root, "a.c",
          "int main(void)".toUTF8⟩).toList := by
  rw [collectSources, show (spelledSettings sourceDir examplesDir).sourceDirs = [⟨sourceDir⟩] from rfl,
    List.flatMap_singleton, filesBelow_exampleTree followable hsteps]
  cases h : Found.source? (spelledSettings sourceDir examplesDir) scanBuild _ with
  | none => rw [List.filterMap_cons_none h]; rfl
  | some s => rw [List.filterMap_cons_some h]; rfl

/-- The directories of the project can be spelled with idle pieces, but with a `.` in front there is
no example left that an analysis could leave out. -/
theorem collectSources_example_respelled :
    collectSources exampleTree ⟨"."⟩ (spelledSettings ".//examples/." "examples/./") true =
        collectSources exampleTree ⟨"."⟩ (spelledSettings "examples" "examples") true ∧
      collectSources exampleTree ⟨"."⟩ (spelledSettings ".//examples/." "./examples") true =
        (collectSources exampleTree ⟨"."⟩ (spelledSettings "examples" "examples") false).map
          Source.asOther := by
  have dir : SameDirectory ⟨"."⟩ ⟨"examples"⟩ ⟨".//examples/."⟩ :=
    ⟨by decide +kernel, by decide, by decide, by decide +kernel⟩
  have same : ∀ examplesDir : String, Respelled ⟨"examples"⟩ ⟨examplesDir⟩ →
      (spelledSettings "examples" "examples").Respells ⟨"."⟩
        (spelledSettings ".//examples/." examplesDir) :=
    fun examplesDir respelled => ⟨.cons dir .nil, respelled, rfl⟩
  exact ⟨(collectSources_respelled exampleTree (same "examples/./" (by decide +kernel)) true).1
      (by decide +kernel),
    ((collectSources_respelled exampleTree (same "./examples" (by decide +kernel)) true).2
      (by decide +kernel) (by decide)).1⟩

/-- Four spellings that tell: a `.` in front of the directory of the examples, one in front of a
source directory of the empty root, and one in an absolute source directory of a relative root and of
a root that climbs. -/
theorem respelling_tells :
    (collectSources exampleTree ⟨"."⟩ (spelledSettings "examples" "examples") false =
        [⟨"examples/a.c", .c, true, true⟩] ∧
      collectSources exampleTree ⟨"."⟩ (spelledSettings "examples" "./examples") false =
        [⟨"examples/a.c", .c, false, false⟩] ∧
      collectSources exampleTree ⟨"."⟩ (spelledSettings "examples" "examples") true = [] ∧
      collectSources exampleTree ⟨"."⟩ (spelledSettings "examples" "./examples") true =
        [⟨"examples/a.c", .c, false, false⟩]) ∧
    collectSources exampleTree ⟨""⟩ (spelledSettings "./examples" "examples") false ≠
      collectSources exampleTree ⟨""⟩ (spelledSettings "examples" "examples") false ∧
    collectSources exampleTree ⟨"."⟩ (spelledSettings "/./examples" "examples") false ≠
      collectSources exampleTree ⟨"."⟩ (spelledSettings "/examples" "examples") false ∧
    collectSources exampleTree ⟨"/examples/.."⟩ (spelledSettings "/./examples" "examples") false ≠
      collectSources exampleTree ⟨"/examples/.."⟩ (spelledSettings "/examples" "examples") false := by
  refine ⟨⟨?_, ?_, ?_, ?_⟩, ?_, ?_, ?_⟩
  iterate 4
    · rw [collectSources_exampleTree (by decide +kernel) (by decide +kernel)]
      decide +kernel
  -- here both runs find the file, and under different paths
  all_goals
    rw [collectSources_exampleTree (by decide +kernel) (by decide +kernel),
      collectSources_exampleTree (by decide +kernel) (by decide +kernel)]
    decide +kernel

end BuildMatrix
