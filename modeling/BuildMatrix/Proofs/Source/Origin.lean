import BuildMatrix.Proofs.Source.Collected
import BuildMatrix.Proofs.Source.Discovery

/-!
# Where sources come from

The walk of a source directory meets the files that stand below the directory to which
it leads, and no others (`mem_filesBelow_iff`).  So the paths of the sources that are
collected are those of the files that the walks take for sources, wherever these stand
(`mem_paths_collectSources`): nothing is passed over but for its name.  A file whose path
came before is no new path.
-/

namespace BuildMatrix

namespace Tree

/-- Below a directory is what names lead to from there. -/
theorem mem_below_iff {t : Tree} {dir : Location} {names : List String} {node : Node} :
    (names, node) ∈ t.below dir ↔ names ≠ [] ∧ t.node? (dir ++ names) = some node := by
  unfold below
  rw [List.mem_filterMap]
  constructor
  · rintro ⟨⟨location, found⟩, hmem, h⟩
    split at h
    · next hbelow =>
      obtain ⟨rest, hrest⟩ := List.isPrefixOf_iff_prefix.1 hbelow.1
      injection h with h
      injection h with hnames hnode
      dsimp only at hbelow hrest hnames
      subst hrest hnode
      rw [List.drop_left] at hnames
      subst hnames
      have hne : rest ≠ [] := by
        rintro rfl
        exact hbelow.2 (List.append_nil dir)
      refine ⟨hne, ?_⟩
      rw [node?, if_neg (List.append_ne_nil_of_right_ne_nil dir hne)]
      exact SortedMap.mem_entries_iff.1 hmem
    · cases h
  · rintro ⟨hne, h⟩
    rw [node?, if_neg (List.append_ne_nil_of_right_ne_nil dir hne)] at h
    refine ⟨(dir ++ names, node), SortedMap.mem_entries_iff.2 h, ?_⟩
    have hbelow : dir.isPrefixOf (dir ++ names) = true ∧ dir ++ names ≠ dir :=
      ⟨List.isPrefixOf_iff_prefix.2 (List.prefix_append _ _),
        fun h => hne (List.append_right_eq_self.1 h)⟩
    rw [if_pos hbelow, List.drop_left]

end Tree

/-! ## Files that are met -/

/-- The walk of a source directory meets a file at a location. -/
structure Met (t : Tree) (root d : Path) (location : Location) (base : Location)
    (names : List String) (f : Found) : Prop where
  /-- The source directory leads to a directory. -/
  leads : t.directory? (root.join d) = some base
  /-- Names lead from there to the location. -/
  below : names ≠ [] ∧ location = base ++ names
  /-- The file stands at the location. -/
  stands : t.node? location = some (.file f.content)
  /-- Its path is spelled with these names. -/
  spelled : f.path = (names.foldl Path.child (root.join d)).relativeTo root
  /-- Its name is the last one. -/
  named : f.name = names.getLast?.getD ""

/-- Walking a source directory finds the files that it meets. -/
theorem mem_filesBelow_iff {t : Tree} {root d : Path} {f : Found} :
    f ∈ filesBelow t root d ↔ ∃ location base names, Met t root d location base names f := by
  rw [filesBelow_eq]
  cases hdir : t.directory? (root.join d) with
  | none =>
    refine ⟨fun h => (by cases h), ?_⟩
    rintro ⟨_, _, _, met⟩
    have hleads := met.leads
    rw [hdir] at hleads
    cases hleads
  | some base =>
    dsimp only
    rw [List.mem_filterMap]
    constructor
    · rintro ⟨⟨names, node⟩, hmem, hfound⟩
      obtain ⟨hne, hnode⟩ := Tree.mem_below_iff.1 hmem
      cases node with
      | directory => cases hfound
      | link target => cases hfound
      | file content =>
        injection hfound with hf
        subst hf
        exact ⟨_, base, names, hdir, ⟨hne, rfl⟩, hnode, rfl, rfl⟩
    · rintro ⟨location, base', names, hleads, ⟨hne, rfl⟩, hnode, hpath, hname⟩
      rw [hdir] at hleads
      injection hleads with hbase
      subst hbase
      refine ⟨(names, .file f.content), Tree.mem_below_iff.2 ⟨hne, hnode⟩, ?_⟩
      show some (Found.mk _ _ _) = some f
      rw [← hpath, ← hname]

/-! ## Sources that are collected -/

/-- A source is the file at a location: the walk of a source directory meets the file there and takes
it for this source. -/
def Source.IsFileAt (t : Tree) (root : Path) (settings : Settings) (scanBuild : Bool) (s : Source)
    (location : Location) : Prop :=
  ∃ d ∈ settings.sourceDirs, ∃ base names f,
    Met t root d location base names f ∧ f.source? settings scanBuild = some s

/-- What is left of a list has all its paths that came not before. -/
theorem mem_paths_withoutRepeats {path : String} (seen : List String) (sources : List Source)
    (fresh : path ∉ seen) (h : path ∈ sources.map (·.path)) :
    path ∈ (withoutRepeats seen sources).map (·.path) := by
  induction sources generalizing seen with
  | nil => cases h
  | cons first rest ih =>
    rw [withoutRepeats]
    rw [List.map_cons, List.mem_cons] at h
    split
    · next hseen =>
      refine ih seen fresh (h.resolve_left ?_)
      rintro rfl
      exact fresh hseen
    · rw [List.map_cons, List.mem_cons]
      by_cases hfirst : path = first.path
      · exact .inl hfirst
      · refine .inr (ih _ ?_ (h.resolve_left hfirst))
        rintro (_ | ⟨_, hseen⟩)
        · exact hfirst rfl
        · exact fresh hseen

section Collected

variable {t : Tree} {root : Path} {settings : Settings} {scanBuild : Bool}

/-- What is collected is a file that a walk takes for a source. -/
theorem isFileAt_of_mem {s : Source} (h : s ∈ collectSources t root settings scanBuild) :
    ∃ location, s.IsFileAt t root settings scanBuild location := by
  obtain ⟨f, hf, hsource⟩ := List.mem_filterMap.1 ((withoutRepeats_spec [] _).2 s h).1
  obtain ⟨d, hd, hfound⟩ := List.mem_flatMap.1 hf
  obtain ⟨location, base, names, met⟩ := mem_filesBelow_iff.1 hfound
  exact ⟨location, d, hd, base, names, f, met, hsource⟩

/-- The paths of the sources are those of the files that the walks take for sources. -/
theorem mem_paths_collectSources {path : String} :
    path ∈ (collectSources t root settings scanBuild).map (·.path) ↔
      ∃ (s : Source) (location : Location),
        s.IsFileAt t root settings scanBuild location ∧ s.path = path := by
  constructor
  · intro h
    obtain ⟨s, hs, hpath⟩ := List.mem_map.1 h
    obtain ⟨location, hlocation⟩ := isFileAt_of_mem hs
    exact ⟨s, location, hlocation, hpath⟩
  · rintro ⟨s, location, ⟨d, hd, base, names, f, met, hsource⟩, rfl⟩
    refine mem_paths_withoutRepeats [] _ List.not_mem_nil (List.mem_map_of_mem ?_)
    have hfound : f ∈ filesBelow t root d := mem_filesBelow_iff.2 ⟨location, base, names, met⟩
    exact List.mem_filterMap.2 ⟨f, List.mem_flatMap.2 ⟨d, hd, hfound⟩, hsource⟩

end Collected

end BuildMatrix
