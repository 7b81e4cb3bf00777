import BuildMatrix.Proofs.Path.Relative
import BuildMatrix.Proofs.Source.Search
import BuildMatrix.Proofs.Tree.Replacement

/-!
# Files that are no sources

A file whose name has no extension of a source can come or change without a trace in
the search for sources, wherever in a source directory it stands, unless it takes the
place of a directory or of a link through which a source directory is reached.
-/

namespace BuildMatrix

/-- A name that no source has. -/
structure Barren (name : String) : Prop where
  /-- It is the name of an entry. -/
  plain : Plain name
  /-- Its extension tells no language. -/
  extension : Path.extensionOf? name ≠ some "c" ∧ Path.extensionOf? name ≠ some "cxx"

theorem Barren.ofPath?_eq_none {name : String} (barren : Barren name) {p : Path}
    (h : p.fileName? = some name ∨ p.fileName? = none) : Language.ofPath? p = none := by
  unfold Language.ofPath? Path.extension?
  rcases h with h | h
  · rw [h, Option.bind_some]
    split
    · next hc => exact absurd hc barren.extension.1
    · next hcxx => exact absurd hcxx barren.extension.2
    · rfl
  · rw [h]
    rfl

/-! ## Files on the walk -/

theorem filesBelow_eq (t : Tree) (root d : Path) :
    filesBelow t root d =
      match t.directory? (root.join d) with
      | none => []
      | some location => (t.below location).filterMap (foundOf root (root.join d)) := rfl

/-- Nothing of such a name is a source. -/
theorem Barren.no_source {name : String} (barren : Barren name) (settings : Settings)
    (scanBuild : Bool) (root base : Path) (names : List String) (node : Node) :
    (foundOf root base (names ++ [name], node)).bind (·.source? settings scanBuild) = none := by
  have hlast : ((names ++ [name]).foldl Path.child base).components.getLast? =
      some (.name name) := by
    rw [List.foldl_append]
    exact Path.getLast?_components_child _ barren.plain
  cases node with
  | directory => rfl
  | link target => rfl
  | file content =>
    show Found.source? settings scanBuild _ = none
    unfold Found.source?
    dsimp only
    split
    · rfl
    · rw [barren.ofPath?_eq_none (Path.fileName?_relativeTo barren.plain hlast root)]
      rfl

/-- Nothing is done about it, unless it is a directory. -/
theorem Barren.no_step {name : String} (barren : Barren name) (settings : Settings)
    (scanBuild : Bool) (root base : Path) (names : List String) {node : Node}
    (hnode : node ≠ .directory) :
    stepOf settings scanBuild root base (names ++ [name], node) = none := by
  have hsource := barren.no_source settings scanBuild root base names node
  cases node with
  | directory => exact absurd rfl hnode
  | file content => rw [stepOf, hsource, Option.map_none]
  | link target => rw [stepOf, hsource, Option.map_none]

/-- The part of a location below a directory has the location's last name. -/
theorem exists_below {location dir : Location} {name : String}
    (hbegins : location.isPrefixOf (dir ++ [name]) = true) (hne : dir ++ [name] ≠ location) :
    ∃ names, (dir ++ [name]).drop location.length = names ++ [name] := by
  obtain ⟨rest, hrest⟩ := List.isPrefixOf_iff_prefix.1 hbegins
  rw [← hrest, List.drop_left]
  rcases List.eq_nil_or_concat rest with rfl | ⟨names, last, rfl⟩
  · rw [List.append_nil] at hrest
    exact absurd hrest.symm hne
  · rw [List.concat_eq_append, ← List.append_assoc] at hrest
    have hlast := (List.append_inj' hrest rfl).2
    injection hlast with hlast _
    exact ⟨names, by rw [List.concat_eq_append, hlast]⟩

section Put

variable {t : Tree} {dir : Location} {name : String} (barren : Barren name)
  (free : t.node? (dir ++ [name]) ≠ some .directory) {c : ByteArray} {root : Path}
  {settings : Settings}
include barren free

/-- The walk of a source directory does the same. -/
theorem stepsBelow_put {d : Path}
    (same : (t.put (dir ++ [name]) (.file c)).directory? (root.join d) = t.directory? (root.join d))
    (scanBuild : Bool) :
    stepsBelow (t.put (dir ++ [name]) (.file c)) root settings scanBuild d =
      stepsBelow t root settings scanBuild d := by
  rw [stepsBelow_eq, stepsBelow_eq, same]
  cases t.directory? (root.join d) with
  | none => rfl
  | some location =>
    -- neither the file nor what it replaces leaves a trace in the walk
    have htrace : ∀ node : Node, node ≠ .directory →
        ((if location.isPrefixOf (dir ++ [name]) ∧ dir ++ [name] ≠ location then
            some ((dir ++ [name]).drop location.length, node) else none).bind
          (stepOf settings scanBuild root (root.join d))) = none := by
      intro node hnode
      split
      · next hbelow =>
        obtain ⟨names, hnames⟩ := exists_below hbelow.1 hbelow.2
        rw [hnames]
        exact barren.no_step settings scanBuild root _ names hnode
      · rfl
    dsimp only
    refine congrArg (Step.list _ _ :: ·) ?_
    show List.filterMap _ (List.filterMap _ _) = List.filterMap _ (List.filterMap _ _)
    rw [List.filterMap_filterMap, List.filterMap_filterMap]
    refine SortedMap.filterMap_insertEntry _ ?_ ?_
    · exact htrace _ nofun
    · rintro ⟨key, node⟩ hmem rfl
      refine htrace node fun hnode => free ?_
      rw [Tree.node?, if_neg (List.concat_ne_nil _ _), ← hnode]
      exact SortedMap.mem_entries_iff.1 hmem

/-- A file of such a name leaves the search as it was, if it takes the place of no directory and stands
in the way of no source directory. -/
theorem findSources_put
    (same : ∀ d ∈ settings.sourceDirs,
      (t.put (dir ++ [name]) (.file c)).directory? (root.join d) = t.directory? (root.join d))
    (refusal? : Path → Option Trouble) (scanBuild : Bool) :
    findSources refusal? (t.put (dir ++ [name]) (.file c)) root settings scanBuild =
      findSources refusal? t root settings scanBuild :=
  congrArg (takeSteps refusal? [])
    (List.flatMap_congr fun d hd => stepsBelow_put barren free (same d hd) scanBuild)

end Put

end BuildMatrix
