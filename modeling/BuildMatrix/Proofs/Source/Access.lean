import BuildMatrix.Proofs.Path.Respelled
import BuildMatrix.Proofs.Source.Search
import BuildMatrix.Proofs.Source.Walk
import BuildMatrix.Proofs.Text.Utf8

/-!
# Searches that get through

A search for sources lists the source directories and all directories below, and of the
sources it reads the examples.  It goes by paths, so even where the tree holds everything
that is asked for, a path may be one that cannot be opened.  `Accessible` says that none
is: neither the path of a directory below a source directory, nor that of an example below
the first source directory that holds it.

Where names are spelled without backslashes, a search gets through if and only if all this
is so, and then it finds the sources of the project (`discovered_findSources`).  A search
that does not get through names a directory or an example and why it could not be opened
(`refused_of_findSources`).

The steps of the search are put in terms of the tree: a directory is listed if it is there
(`list_mem_stepsBelow_iff`), and a file whose path comes first stands below the first
source directory that holds it (`firstBelow_of_step`).  There is one such directory, and
names lead from it to the file in one way (`FirstBelow.unique`).

*What else may be in the way.*  The paths of the walk are longer than those of the source
directories, and grow too long while the source directory can still be found.  A name that
is not UTF-8 has no place in a tree.  Its path would be shown with marks for what cannot be
read (`Path.slashedBytes`), and two files could be shown alike (`findSources_falls_short`).
-/

namespace BuildMatrix

open BuildMatrix.Path (EntryName spelled)

variable {refusal? : Path → Option Trouble} {t : Tree} {root : Path} {settings : Settings}
  {scanBuild : Bool}

/-! ## The steps of a walk -/

section Steps

variable {base : Path} {names : List String} {node : Node}

theorem stepOf_eq_list_iff {given directory : Path} :
    stepOf settings scanBuild root base (names, node) = some (.list given directory) ↔
      node = .directory ∧ given = base ∧ directory = names.foldl Path.child base := by
  cases node with
  | directory => simp [stepOf, eq_comm]
  | link target =>
    constructor
    · intro h
      cases h
    · rintro ⟨⟨⟩, -⟩
  | file content =>
    constructor
    · intro h
      obtain ⟨source, -, htake⟩ := Option.map_eq_some_iff.1 h
      cases htake
    · rintro ⟨⟨⟩, -⟩

theorem stepOf_eq_take_iff {file : Path} {s : Source} :
    stepOf settings scanBuild root base (names, node) = some (.take file s) ↔
      (∃ f, foundOf root base (names, node) = some f ∧ f.source? settings scanBuild = some s) ∧
        file = names.foldl Path.child base := by
  rw [← Option.bind_eq_some_iff]
  cases node with
  | directory => exact iff_of_false nofun nofun
  | link target => exact iff_of_false nofun nofun
  | file content =>
    refine Option.map_eq_some_iff.trans ⟨?_, fun h => ⟨s, h.1, by rw [h.2]⟩⟩
    rintro ⟨source, hsource, htake⟩
    cases htake
    exact ⟨hsource, rfl⟩

/-- A walk starts with the source directory, if it is there, and goes on with the entries below. -/
theorem mem_stepsBelow_iff {d : Path} {step : Step} :
    step ∈ stepsBelow t root settings scanBuild d ↔
      ∃ base, t.directory? (root.join d) = some base ∧
        (step = .list (root.join d) (root.join d) ∨
          ∃ e ∈ t.below base, stepOf settings scanBuild root (root.join d) e = some step) := by
  rw [stepsBelow_eq]
  cases t.directory? (root.join d) with
  | none => simp
  | some base => simp

/-- A walk lists the source directory and the directories below. -/
theorem list_mem_stepsBelow_iff {d given directory : Path} :
    .list given directory ∈ stepsBelow t root settings scanBuild d ↔
      given = root.join d ∧ ∃ base names, t.directory? (root.join d) = some base ∧
        t.node? (base ++ names) = some .directory ∧
          directory = names.foldl Path.child (root.join d) := by
  rw [mem_stepsBelow_iff]
  constructor
  · rintro ⟨base, hdir, h | ⟨⟨names, node⟩, hmem, hstep⟩⟩
    · cases h
      refine ⟨rfl, base, [], hdir, ?_, rfl⟩
      rw [List.append_nil]
      exact Tree.holds_of_resolve (Tree.resolve_of_follow
        (Tree.find?_eq_some_iff.1 (Tree.directory?_eq_some_iff.1 hdir)))
    · obtain ⟨rfl, rfl, rfl⟩ := stepOf_eq_list_iff.1 hstep
      exact ⟨rfl, base, names, hdir, (Tree.mem_below_iff.1 hmem).2, rfl⟩
  · rintro ⟨rfl, base, names, hdir, hnode, rfl⟩
    refine ⟨base, hdir, ?_⟩
    by_cases hnil : names = []
    · rw [hnil]
      exact .inl rfl
    · exact .inr ⟨(names, .directory), Tree.mem_below_iff.2 ⟨hnil, hnode⟩,
        stepOf_eq_list_iff.2 ⟨rfl, rfl, rfl⟩⟩

end Steps

theorem takenPaths_flatMap (dirs : List Path) :
    takenPaths (dirs.flatMap (stepsBelow t root settings scanBuild)) =
      (dirs.flatMap (sourcesBelow t root settings scanBuild)).map (·.path) := by
  rw [takenPaths, List.filterMap_flatMap]
  simp only [filterMap_stepsBelow]
  rfl

/-! ## Access -/

/-- All that a search for sources opens can be opened: the paths are those under which it goes. -/
structure Accessible (refusal? : Path → Option Trouble) (t : Tree) (root : Path)
    (settings : Settings) (scanBuild : Bool) : Prop where
  /-- Every source directory can be listed, and every directory below. -/
  listed : ∀ d ∈ settings.sourceDirs, ∀ base names, t.directory? (root.join d) = some base →
    t.node? (base ++ names) = some .directory →
      refusal? (names.foldl Path.child (root.join d)) = none
  /-- Every example that is to be compiled can be read below the first source directory that holds
  it. -/
  read : ∀ path i d names, FirstBelow t root settings.sourceDirs path i names →
    settings.sourceDirs[i]? = some d → Compiled settings scanBuild (d.names ++ names) →
      settings.examplesDir.names <+: d.names ++ names →
        refusal? (names.foldl Path.child (root.join d)) = none

section Searches

variable (named : t.WellNamed) (examples : settings.examplesDir.Ordinary)
include named examples

/-- What a walk takes is to be compiled, and it goes by the path of the file. -/
theorem takes_of_step {d file : Path} {s : Source} (ordinary : d.Ordinary)
    (h : .take file s ∈ stepsBelow t root settings scanBuild d) :
    ∃ names, Takes t root settings scanBuild d s names ∧
      file = names.foldl Path.child (root.join d) := by
  obtain ⟨base, hdir, h | ⟨⟨names, node⟩, hmem, hstep⟩⟩ := mem_stepsBelow_iff.1 h
  · cases h
  · obtain ⟨⟨f, hf, hs⟩, hfile⟩ := stepOf_eq_take_iff.1 hstep
    have met := met_of_foundOf hdir hmem hf
    exact ⟨names, (takes_of_met named examples ordinary met).2 s hs, hfile⟩

/-- A file whose path comes first is below the first source directory that holds it. -/
theorem firstBelow_of_step {dirs : List Path} (ordinary : ∀ d ∈ dirs, d.Ordinary)
    {before after : List Step} {file : Path} {s : Source}
    (hsplit : dirs.flatMap (stepsBelow t root settings scanBuild) = before ++ .take file s :: after)
    (fresh : s.path ∉ takenPaths before) :
    ∃ i d names, FirstBelow t root dirs s.path i names ∧ dirs[i]? = some d ∧
      Takes t root settings scanBuild d s names ∧ file = names.foldl Path.child (root.join d) := by
  obtain ⟨front, d, back, b₁, b₂, rfl, hd, rfl, -⟩ := exists_list hsplit
  have hstep : .take file s ∈ stepsBelow t root settings scanBuild d := by simp [hd]
  obtain ⟨names, takes, hfile⟩ := takes_of_step named examples (ordinary d (by simp)) hstep
  rw [takenPaths_append, List.mem_append, not_or, takenPaths_flatMap] at fresh
  exact ⟨front.length, d, names, firstBelow_of_fresh named examples ordinary takes fresh.1, by simp,
    takes, hfile⟩

omit examples in
/-- There is one first source directory, and names lead from it to the file in one way. -/
theorem FirstBelow.unique {dirs : List Path} (ordinary : ∀ d ∈ dirs, d.Ordinary) {path : String}
    {i j : Nat} {names names' : List String} (first : FirstBelow t root dirs path i names)
    (first' : FirstBelow t root dirs path j names') : i = j ∧ names = names' := by
  have hle : ∀ {i j : Nat} {names names' : List String}, FirstBelow t root dirs path i names →
      FirstBelow t root dirs path j names' → j ≤ i := by
    intro i j names names' first first'
    by_contra hlt
    obtain ⟨d, hd, holds, hpath⟩ := first.below
    have hd' : (dirs.take j)[i]? = some d := by
      rw [List.getElem?_take_of_lt (by omega), hd]
    exact first'.first d (List.mem_of_getElem? hd') ⟨names, holds, hpath⟩
  obtain rfl : i = j := Nat.le_antisymm (hle first' first) (hle first first')
  obtain ⟨d, hd, holds, hpath⟩ := first.below
  obtain ⟨d', hd', holds', hpath'⟩ := first'.below
  obtain rfl : d = d' := Option.some.inj (hd.symm.trans hd')
  have ordinary := ordinary d (List.mem_of_getElem? hd)
  have hnames := Path.spelled_inj (holds.entryNames named ordinary)
    (holds'.entryNames named ordinary) (hpath.symm.trans hpath')
  exact ⟨rfl, List.append_cancel_left hnames⟩

/-- Nothing on the way of a search is refused if and only if all that it opens can be opened. -/
theorem unhindered_iff_accessible (dirs : ∀ d ∈ settings.sourceDirs, d.Ordinary) :
    Unhindered refusal? [] (settings.sourceDirs.flatMap (stepsBelow t root settings scanBuild)) ↔
      Accessible refusal? t root settings scanBuild := by
  constructor
  · intro free
    refine ⟨fun d hd base names hdir hnode => ?_, fun path i d names first hd compiled hexample => ?_⟩
    · exact free.listed (root.join d) _ (List.mem_flatMap.2
        ⟨d, hd, list_mem_stepsBelow_iff.2 ⟨rfl, base, names, hdir, hnode, rfl⟩⟩)
    · -- the example is taken somewhere, and the first time it is taken here
      have hmem := List.mem_of_getElem? hd
      obtain ⟨d', hd', holds, hpath⟩ := first.below
      obtain rfl : d = d' := Option.some.inj (hd.symm.trans hd')
      obtain ⟨s, hs, hs'⟩ := exists_mem_sourcesBelow named examples (dirs d hmem) holds compiled
      have htaken : path ∈ takenPaths
          (settings.sourceDirs.flatMap (stepsBelow t root settings scanBuild)) := by
        rw [takenPaths_flatMap, hpath, ← hs']
        exact List.mem_map_of_mem (List.mem_flatMap.2 ⟨d, hmem, hs⟩)
      obtain ⟨before, file, s', after, hsplit, rfl, fresh⟩ := exists_split_of_taken htaken
      obtain ⟨j, d', names', first', hd', takes, rfl⟩ :=
        firstBelow_of_step named examples dirs hsplit fresh
      obtain ⟨rfl, rfl⟩ := first.unique named dirs first'
      obtain rfl : d = d' := Option.some.inj (hd.symm.trans hd')
      have isExample := takes.told.isExample.2 hexample
      exact free.read before _ s' after hsplit isExample List.not_mem_nil fresh
  · intro access
    refine ⟨fun given directory hstep => ?_, fun before file s after hsplit hexample _ fresh => ?_⟩
    · obtain ⟨d, hd, hstep⟩ := List.mem_flatMap.1 hstep
      obtain ⟨-, base, names, hdir, hnode, rfl⟩ := list_mem_stepsBelow_iff.1 hstep
      exact access.listed d hd base names hdir hnode
    · obtain ⟨i, d, names, first, hd, takes, rfl⟩ :=
        firstBelow_of_step named examples dirs hsplit fresh
      exact access.read s.path i d names first hd takes.compiled (takes.told.isExample.1 hexample)

/-- A search that fails names a directory below a source directory, or an example that is to be
compiled, and why it could not be opened. -/
theorem refused_of_findSources (dirs : ∀ d ∈ settings.sourceDirs, d.Ordinary) {failure : SearchFailure}
    (h : findSources refusal? t root settings scanBuild = .error failure) :
    ∃ d ∈ settings.sourceDirs, ∃ names cause,
      refusal? (names.foldl Path.child (root.join d)) = some cause ∧
        ((failure = .walk (root.join d) (names.foldl Path.child (root.join d)) cause ∧
            ∃ base, t.directory? (root.join d) = some base ∧
              t.node? (base ++ names) = some .directory) ∨
          (failure = .read (names.foldl Path.child (root.join d)) cause ∧
            t.HoldsFile root d names ∧ Compiled settings scanBuild (d.names ++ names) ∧
              settings.examplesDir.names <+: d.names ++ names)) := by
  cases arises_of_takeSteps h with
  | walk hstep refused =>
    obtain ⟨d, hd, hstep⟩ := List.mem_flatMap.1 hstep
    obtain ⟨rfl, base, names, hdir, hnode, rfl⟩ := list_mem_stepsBelow_iff.1 hstep
    exact ⟨d, hd, names, _, refused, .inl ⟨rfl, base, hdir, hnode⟩⟩
  | read hstep isExample refused =>
    obtain ⟨d, hd, hstep⟩ := List.mem_flatMap.1 hstep
    obtain ⟨names, takes, rfl⟩ := takes_of_step named examples (dirs d hd) hstep
    exact ⟨d, hd, names, _, refused,
      .inr ⟨rfl, takes.holds, takes.compiled, takes.told.isExample.1 isExample⟩⟩

/-- A search gets through if and only if all that it opens can be opened.  What it finds are the
sources of the project. -/
theorem discovered_findSources (wf : t.WellFormed) (dirs : ∀ d ∈ settings.sourceDirs, d.Ordinary)
    (refusal? : Path → Option Trouble) (root : Path) (scanBuild : Bool) :
    ((∃ sources, findSources refusal? t root settings scanBuild = .ok sources) ↔
        Accessible refusal? t root settings scanBuild) ∧
      ∀ sources, findSources refusal? t root settings scanBuild = .ok sources →
        Discovered t root settings scanBuild sources := by
  constructor
  · rw [← unhindered_iff_accessible named examples dirs]
    exact ⟨fun ⟨_, h⟩ => (findSources_eq_ok_iff.1 h).1,
      fun free => ⟨_, findSources_eq_ok_iff.2 ⟨free, rfl⟩⟩⟩
  · intro sources h
    rw [eq_collectSources h]
    exact discovered_collectSources named examples wf dirs root scanBuild

end Searches

/-- A project with a source directory inside another one. -/
def nestedTree : Tree :=
  (((Tree.empty.put ["s"] .directory).put ["s", "a.c"] (.file .empty)).put ["s", "t"]
    .directory).put ["s", "t", "b.cxx"] (.file .empty)

/-- The settings of the project.  The inner directory is that of the examples, too. -/
def nestedSettings : Settings := { sourceDirs := [⟨"s/t"⟩, ⟨"s"⟩], examplesDir := ⟨"s/t"⟩ }

theorem wellFormed_nestedTree : nestedTree.WellFormed := by
  have fits : Tree.empty.Fits ["s"] := ⟨by decide, rfl, by decide⟩
  have fits₁ : (Tree.empty.put ["s"] .directory).Fits ["s", "a.c"] :=
    ⟨by decide, by decide, by decide⟩
  have fits₂ : ((Tree.empty.put ["s"] .directory).put ["s", "a.c"] (.file .empty)).Fits ["s", "t"] :=
    ⟨by decide, by decide, by decide⟩
  have fits₃ : (((Tree.empty.put ["s"] .directory).put ["s", "a.c"] (.file .empty)).put ["s", "t"]
      .directory).Fits ["s", "t", "b.cxx"] := ⟨by decide, by decide, by decide⟩
  exact fits₃.wellFormed (fits₂.wellFormed (fits₁.wellFormed
    (fits.wellFormed Tree.wellFormed_empty _) _) _) _

theorem wellNamed_nestedTree : nestedTree.WellNamed :=
  (((Tree.wellNamed_empty.put (by decide) (by decide) _).put (by decide) (by decide) _).put
    (by decide) (by decide) _).put (by decide) (by decide) _

theorem directory?_nestedTree : nestedTree.directory? ⟨"s/t"⟩ = some ["s", "t"] := by
  have hs : nestedTree.node? ([] ++ ["s"]) = some .directory := by decide
  have ht : nestedTree.node? (["s"] ++ ["t"]) = some .directory := by decide
  rw [Tree.directory?_eq_some_iff, Tree.find?_eq_some_iff, Tree.locate,
    Tree.follow_of_followable (by decide), show Path.pieces ⟨"s/t"⟩ = ["s", "t"] by decide,
    show nestedTree.startOf ⟨"s/t"⟩ = [] by decide,
    Tree.resolve_down (by decide) (by decide) rfl hs,
    Tree.resolve_down (by decide) (by decide) hs ht, Tree.resolve_nil, List.nil_append, ht]
  rfl

/-- Both sources of the project are found, and the one in the inner directory is an example, which
is read. -/
theorem findSources_nestedTree :
    findSources Tree.refusal? nestedTree ⟨""⟩ nestedSettings false =
      .ok [⟨"s/t/b.cxx", .cxx, true, false⟩, ⟨"s/a.c", .c, false, false⟩] := by
  have hs : nestedTree.directory? ⟨"s"⟩ = some ["s"] :=
    Tree.directory?_of_steps (by decide) (by decide) (by decide) (by decide) (by decide) (by decide)
  have hinner : stepsBelow nestedTree ⟨""⟩ nestedSettings false ⟨"s/t"⟩ =
      [.list ⟨"s/t"⟩ ⟨"s/t"⟩, .take ⟨"s/t/b.cxx"⟩ ⟨"s/t/b.cxx", .cxx, true, false⟩] := by
    rw [stepsBelow_eq, show Path.join ⟨""⟩ ⟨"s/t"⟩ = ⟨"s/t"⟩ by decide, directory?_nestedTree]
    decide +kernel
  have houter : stepsBelow nestedTree ⟨""⟩ nestedSettings false ⟨"s"⟩ =
      [.list ⟨"s"⟩ ⟨"s"⟩, .take ⟨"s/a.c"⟩ ⟨"s/a.c", .c, false, false⟩, .list ⟨"s"⟩ ⟨"s/t"⟩,
        .take ⟨"s/t/b.cxx"⟩ ⟨"s/t/b.cxx", .cxx, true, false⟩] := by
    rw [stepsBelow_eq, show Path.join ⟨""⟩ ⟨"s"⟩ = ⟨"s"⟩ by decide, hs]
    decide +kernel
  rw [findSources, show nestedSettings.sourceDirs = [⟨"s/t"⟩, ⟨"s"⟩] from rfl, List.flatMap_cons,
    List.flatMap_singleton, hinner, houter]
  rfl

/-- The sources of the project, seen from the directory in which it stands. -/
theorem discovered_nestedTree :
    Accessible Tree.refusal? nestedTree ⟨""⟩ nestedSettings false ∧
      Discovered nestedTree ⟨""⟩ nestedSettings false
        [⟨"s/t/b.cxx", .cxx, true, false⟩, ⟨"s/a.c", .c, false, false⟩] := by
  have examples : nestedSettings.examplesDir.Ordinary :=
    Path.ordinary_of_components (show _ = ["s", "t"].map Component.name by decide +kernel)
  have dirs : ∀ d ∈ nestedSettings.sourceDirs, d.components = d.names.map .name := by decide +kernel
  obtain ⟨success, discovered⟩ := discovered_findSources wellNamed_nestedTree examples
    wellFormed_nestedTree (fun d hd => Path.ordinary_of_components (dirs d hd)) Tree.refusal? ⟨""⟩
      false
  exact ⟨success.1 ⟨_, findSources_nestedTree⟩, discovered _ findSources_nestedTree⟩

/-! ## Paths that are too long -/

/-- The working directory, spelled with idle pieces. -/
def idleText : Nat → String
  | 0 => "."
  | n + 1 => idleText n ++ "/" ++ "."

theorem utf8ByteSize_idleText (n : Nat) : (idleText n).utf8ByteSize = 2 * n + 1 := by
  induction n with
  | zero => rfl
  | succ n ih =>
    rw [idleText, String.utf8ByteSize_append, String.utf8ByteSize_append, ih]
    show 2 * n + 1 + 1 + 1 = _
    omega

theorem steps_idleText (n : Nat) : (Path.mk (idleText n)).steps = [] := by
  induction n with
  | zero => decide
  | succ n ih =>
    rw [idleText, Path.steps_slash, ih]
    decide

theorem join_idleText (n : Nat) {q : Path} (hrelative : ¬ q.isAbsolute = true) :
    (Path.mk (idleText n)).join q = ⟨idleText n ++ "/" ++ q.text⟩ := by
  have hlast : (idleText n).toList.getLast? = some '.' := by
    cases n <;> simp [idleText]
  rw [Path.join, if_neg hrelative, if_neg]
  rintro (h | h)
  · rw [show idleText n = "" from h] at hlast
    cases hlast
  · rw [hlast] at h
    cases h

/-- A path below is longer by its name at least. -/
theorem Path.utf8ByteSize_child_ge (p : Path) {name : String} (single : '/' ∉ name.toList) :
    p.text.utf8ByteSize + name.utf8ByteSize ≤ (p.child name).text.utf8ByteSize := by
  unfold Path.child Path.join
  rw [if_neg (Path.not_isAbsolute_of_single single)]
  split
  · rw [String.utf8ByteSize_append]
  · rw [String.utf8ByteSize_append, String.utf8ByteSize_append]
    exact Nat.add_le_add_right (Nat.le_add_right _ _) _

/-- A name that is almost as long as a name can be. -/
def longName : String := String.ofList (List.replicate 250 'd')

theorem entryName_longName : EntryName longName ∧ '\\' ∉ longName.toList := by
  decide +kernel

/-- A project whose only source stands in a directory with the long name. -/
def deepTree : Tree :=
  ((Tree.empty.put ["s"] .directory).put ["s", longName] .directory).put ["s", longName, "a.c"]
    (.file .empty)

/-- The settings of the project. -/
def deepSettings : Settings := { sourceDirs := [⟨"s"⟩] }

/-- The directory in which the project stands, with a spelling that leaves room for all but the
long name. -/
def deepRoot : Path := ⟨idleText 1950⟩

theorem wellFormed_deepTree : deepTree.WellFormed := by
  have fits : Tree.empty.Fits ["s"] := ⟨by decide, rfl, by decide⟩
  have fits₁ : (Tree.empty.put ["s"] .directory).Fits ["s", longName] := by
    refine ⟨by simp, Tree.node?_put_self (by simp) _, ?_⟩
    rw [Tree.node?_put_of_ne (by simp) _ (by simp)]
    nofun
  have fits₂ : ((Tree.empty.put ["s"] .directory).put ["s", longName] .directory).Fits
      ["s", longName, "a.c"] := by
    refine ⟨by simp, Tree.node?_put_self (by simp) _, ?_⟩
    rw [Tree.node?_put_of_ne (by simp) _ (by simp), Tree.node?_put_of_ne (by simp) _ (by simp)]
    nofun
  exact fits₂.wellFormed (fits₁.wellFormed (fits.wellFormed Tree.wellFormed_empty _) _) _

theorem wellNamed_deepTree : deepTree.WellNamed := by
  have hs : EntryName "s" ∧ '\\' ∉ "s".toList := by decide
  have ha : EntryName "a.c" ∧ '\\' ∉ "a.c".toList := by decide
  refine ((Tree.wellNamed_empty.put (by simp) ?_ _).put (by simp) ?_ _).put (by simp) ?_ _
  · exact List.forall_mem_singleton.2 hs
  · exact List.forall_mem_cons.2 ⟨hs, List.forall_mem_singleton.2 entryName_longName⟩
  · exact List.forall_mem_cons.2 ⟨hs, List.forall_mem_cons.2
      ⟨entryName_longName, List.forall_mem_singleton.2 ha⟩⟩

theorem directory_deepTree : deepTree.node? ["s"] = some .directory ∧
    deepTree.node? ["s", longName] = some .directory := by
  constructor
  · rw [deepTree, Tree.node?_put_of_ne (by simp) _ (by simp),
      Tree.node?_put_of_ne (by simp) _ (by simp)]
    exact Tree.node?_put_self (by simp) _
  · rw [deepTree, Tree.node?_put_of_ne (by simp) _ (by simp)]
    exact Tree.node?_put_self (by simp) _

/-- The path of the source directory is short enough, and what is below the long name is not. -/
theorem size_deepTree : (deepRoot.join ⟨"s"⟩).text.utf8ByteSize = 3903 ∧
    Tree.pathLimit < ((deepRoot.join ⟨"s"⟩).child longName).text.utf8ByteSize := by
  have hsize : (deepRoot.join ⟨"s"⟩).text.utf8ByteSize = 3903 := by
    rw [deepRoot, join_idleText 1950 (by decide), String.utf8ByteSize_append,
      String.utf8ByteSize_append, utf8ByteSize_idleText]
    rfl
  have hchild := Path.utf8ByteSize_child_ge (deepRoot.join ⟨"s"⟩) entryName_longName.1.single
  have hlong : longName.utf8ByteSize = 250 := by decide +kernel
  refine ⟨hsize, ?_⟩
  rw [hsize, hlong] at hchild
  exact Nat.lt_of_lt_of_le (by decide) hchild

/-- The source directory is found. -/
theorem directory?_deepTree : deepTree.directory? (deepRoot.join ⟨"s"⟩) = some ["s"] := by
  have hsteps : (deepRoot.join ⟨"s"⟩).steps = (Path.mk "s").steps := by
    rw [deepRoot, join_idleText 1950 (by decide), Path.steps_slash, steps_idleText, List.nil_append]
  have followable : Tree.Followable (deepRoot.join ⟨"s"⟩) := by
    refine ⟨fun hempty => ?_, fun hnul => ?_, ?_⟩
    · have hsize := size_deepTree.1
      rw [hempty] at hsize
      cases hsize
    · have hmem := Path.mem_text_of_steps (by decide) (by decide) hsteps
        (List.contains_iff_mem.1 hnul)
      exact absurd hmem (by decide)
    · rw [size_deepTree.1]
      decide
  exact Tree.directory?_of_steps followable (ite_self _) (hsteps.trans (by decide)) (by decide)
    (by decide) directory_deepTree.1

/-- The source is to be compiled. -/
theorem compiled_deepTree : deepTree.HoldsFile deepRoot ⟨"s"⟩ [longName, "a.c"] ∧
    Compiled deepSettings false ((Path.mk "s").names ++ [longName, "a.c"]) := by
  refine ⟨⟨["s"], .empty, directory?_deepTree, by simp, Tree.node?_put_self (by simp) _⟩, ?_⟩
  have hlast : ((Path.mk "s").names ++ [longName, "a.c"]).getLast? = some "a.c" := by simp
  refine ⟨⟨.c, "a", by decide, hlast⟩, fun _ name hname => ?_, nofun⟩
  obtain rfl := Option.some.inj (hlast.symm.trans hname)
  decide

/-! ## Names that are not UTF-8 -/

/-- A path that is a text is shown as its bytes are. -/
theorem Path.slashedBytes_toUTF8 (p : Path) : slashedBytes p.text.toUTF8 = p.slashed := by
  rw [slashedBytes, Text.ofBytes_toUTF8, slashed]

/-- A byte that starts no character is shown as a mark, whichever it is. -/
theorem Path.slashedBytes_marked {b : UInt8} (hb : b = 0xFE ∨ b = 0xFF) :
    slashedBytes ⟨#[0x73, 0x2F, b, 0x2E, 0x63]⟩ = "s/\uFFFD.c" := by
  have hlead : Text.leadOf? b.toNat = none := by rcases hb with rfl | rfl <;> rfl
  have hlarge : ¬ b.toNat < 0x80 := by rcases hb with rfl | rfl <;> decide
  have hread : Text.ofByteList [0x73, 0x2F, b, 0x2E, 0x63] =
      ['s', '/', Text.replacement, '.', 'c'] := by
    simp [Text.ofByteList, Text.readLong, hlead, hlarge]
  rw [slashedBytes, Text.ofBytes, Text.toList_eq_data, hread]
  decide +kernel

/-- Where a search falls short, though no name holds a backslash: a project with one source, the path
of whose directory gets too long, and two files whose names are not UTF-8 and are shown alike. -/
theorem findSources_falls_short :
    (deepTree.WellFormed ∧ deepTree.WellNamed ∧ deepSettings.examplesDir.Ordinary ∧
        (∀ d ∈ deepSettings.sourceDirs, d.Ordinary) ∧
        deepTree.HoldsFile deepRoot ⟨"s"⟩ [longName, "a.c"] ∧
        Compiled deepSettings false ((Path.mk "s").names ++ [longName, "a.c"]) ∧
        ∀ sources, findSources Tree.refusal? deepTree deepRoot deepSettings false ≠ .ok sources) ∧
      ∃ bytes bytes' : ByteArray, bytes ≠ bytes' ∧ 0x5C ∉ bytes.toList ∧ 0x5C ∉ bytes'.toList ∧
        Path.slashedBytes bytes = Path.slashedBytes bytes' := by
  have examples : deepSettings.examplesDir.Ordinary :=
    Path.ordinary_of_components (show _ = ["examples"].map Component.name by decide +kernel)
  have dirs : ∀ d ∈ deepSettings.sourceDirs, d.components = d.names.map .name := by decide +kernel
  have ordinary : ∀ d ∈ deepSettings.sourceDirs, d.Ordinary := fun d hd =>
    Path.ordinary_of_components (dirs d hd)
  refine ⟨⟨wellFormed_deepTree, wellNamed_deepTree, examples, ordinary, compiled_deepTree.1,
    compiled_deepTree.2, fun sources h => ?_⟩, ?_⟩
  · -- the directory with the long name is on the way
    have access := (unhindered_iff_accessible wellNamed_deepTree examples ordinary).1
      (findSources_eq_ok_iff.1 h).1
    have hlisted := access.listed ⟨"s"⟩ (List.mem_singleton_self _) ["s"] [longName]
      directory?_deepTree directory_deepTree.2
    rw [List.foldl_cons, List.foldl_nil] at hlisted
    rw [Tree.refusal?, if_pos size_deepTree.2] at hlisted
    cases hlisted
  · refine ⟨⟨#[0x73, 0x2F, 0xFE, 0x2E, 0x63]⟩, ⟨#[0x73, 0x2F, 0xFF, 0x2E, 0x63]⟩, ?_, ?_, ?_, ?_⟩
    · intro h
      injection h with h
      exact absurd h (by decide)
    · rw [Text.toList_eq_data]
      decide
    · rw [Text.toList_eq_data]
      decide
    · rw [Path.slashedBytes_marked (.inl rfl), Path.slashedBytes_marked (.inr rfl)]

end BuildMatrix
