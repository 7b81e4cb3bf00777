import BuildMatrix.Proofs.Path.Ordinary
import BuildMatrix.Proofs.Source.Origin

/-!
# What a project's sources are

In a tree whose names hold no backslash, and with source directories and an examples
directory that are spelled with names alone, the sources of a project are told without any
path arithmetic (`discovered_collectSources`).  Their paths are those of the files below
the source directories that are to be compiled; each comes once, behind what comes before
it on the walk of the first source directory that holds it.

The path of a file is spelled with the names of its source directory and then those that
lead on to the file, whatever the root is (`Met.path_eq`).  Whether the file is to be
compiled depends on these names alone (`source?_iff`), so a path that is met again was
taken, or passed over, the first time (`not_contains_of_fresh`).  Of the sources that the
walks find the first of each path is kept (`pairwise_withoutRepeats`), which gives the
order.
-/

namespace BuildMatrix

open BuildMatrix.Path (EntryName spelled)

/-! ## Names in trees -/

/-- Every name in the tree is the name of an entry and holds no backslash. -/
structure Tree.WellNamed (t : Tree) : Prop where
  entry : ∀ location node, t.node? location = some node → ∀ name ∈ location, EntryName name
  plain : ∀ location node, t.node? location = some node → ∀ name ∈ location, '\\' ∉ name.toList

namespace Tree

variable {t : Tree}

theorem wellNamed_empty : Tree.empty.WellNamed := by
  have hnodes : ∀ location node, Tree.empty.node? location = some node → location = [] := by
    intro location node h
    by_contra hne
    rw [node?, if_neg hne] at h
    cases h
  constructor <;> intro location node h name hname <;> rw [hnodes location node h] at hname <;>
    cases hname

theorem WellNamed.put (named : t.WellNamed) {location : Location} (hroot : location ≠ [])
    (entries : ∀ name ∈ location, EntryName name ∧ '\\' ∉ name.toList) (node : Node) :
    (t.put location node).WellNamed := by
  constructor <;> intro other found h name hname <;> rw [node?_put hroot] at h <;> split at h
  · next hother => exact (entries name (hother ▸ hname)).1
  · exact named.entry other found h name hname
  · next hother => exact (entries name (hother ▸ hname)).2
  · exact named.plain other found h name hname

/-- A resolution that goes on from a name has found it. -/
theorem exists_node_of_turn {piece : String} (proper : Path.Proper piece) {aim : Aim}
    {links links' : Nat} {dir dir' : Location} {rest pieces : List String}
    (h : t.turn aim links dir piece rest = .onward links' dir' pieces) :
    ∃ node, t.node? (dir ++ [piece]) = some node := by
  rcases t.turn_cases aim links dir piece rest with
    ⟨-, hturn⟩ | ⟨-, ⟨turn, hearly, hturn⟩ | ⟨-, hturn⟩⟩
  · rw [h] at hturn
    cases hturn
  · rw [h] at hturn
    subst hturn
    rw [earlyTurn, if_neg (show ¬ (piece = "" ∨ piece = ".") from proper.not_idle),
      if_neg proper.not_up] at hearly
    split at hearly
    · cases hearly
    split at hearly <;> cases hearly
  · cases hnode : t.node? (dir ++ [piece]) with
    | some node => exact ⟨node, rfl⟩
    | none =>
      rw [h, hnode] at hturn
      cases hturn

/-- On the way to a directory every name is found somewhere. -/
theorem exists_of_resolve {piece : String} (proper : Path.Proper piece) {links : Nat}
    {dir base : Location} {pieces : List String} :
    t.resolve .node links dir pieces = .ok (.taken base .directory) → piece ∈ pieces →
      ∃ location node, t.node? (location ++ [piece]) = some node := by
  induction links, dir, pieces using resolve_ind t .node with
  | nil links dir =>
    intro _ hmem
    cases hmem
  | cons links dir first rest ih =>
    intro h hmem
    rw [resolve_cons] at h
    rcases t.turn_rest links dir first rest rest with
      ⟨outcome, -, hturn, -⟩ | ⟨links', dir', front, hturn, -⟩
    · rw [hturn] at h
      exact absurd h (outcome_ne_of_ended hturn)
    · rcases List.mem_cons.1 hmem with rfl | hmem
      · obtain ⟨node, hnode⟩ := exists_node_of_turn proper hturn
        exact ⟨dir, node, hnode⟩
      · rw [hturn] at h
        exact ih links' dir' _ hturn h (List.mem_append_right _ hmem)

/-- A tree in which the path of a directory leads to one has the path's names. -/
theorem WellNamed.plain_of_directory (named : t.WellNamed) {p : Path} {base : Location}
    (h : t.directory? p = some base) {name : String} (hname : .name name ∈ p.components) :
    '\\' ∉ name.toList := by
  obtain ⟨hpiece, entry⟩ := Path.mem_pieces_of_components hname
  have hlocate := find?_eq_some_iff.1 (directory?_eq_some_iff.1 h)
  obtain ⟨location, node, hnode⟩ :=
    exists_of_resolve entry.proper (resolve_of_follow hlocate) hpiece
  exact named.plain _ node hnode name (by simp)

end Tree

/-! ## Files below source directories -/

/-- A file stands below a source directory, and these names lead to it from there.  No link is
followed on the way. -/
def Tree.HoldsFile (t : Tree) (root d : Path) (names : List String) : Prop :=
  ∃ base content, t.directory? (root.join d) = some base ∧ names ≠ [] ∧
    t.node? (base ++ names) = some (.file content)

/-- The path stands for a file below the source directory. -/
def Tree.Contains (t : Tree) (root d : Path) (path : String) : Prop :=
  ∃ names, t.HoldsFile root d names ∧ path = spelled (d.names ++ names)

section Files

variable {t : Tree} {root d base : Path} {names : List String}

theorem Tree.HoldsFile.entryNames (holds : t.HoldsFile root d names) (named : t.WellNamed)
    (ordinary : d.Ordinary) : ∀ name ∈ d.names ++ names, EntryName name := by
  obtain ⟨base, content, -, -, hnode⟩ := holds
  intro name hname
  rcases List.mem_append.1 hname with hname | hname
  · exact ordinary.entryName hname
  · exact named.entry _ _ hnode name (List.mem_append_right _ hname)

theorem Tree.HoldsFile.plain (holds : t.HoldsFile root d names) (named : t.WellNamed)
    (ordinary : d.Ordinary) : ∀ name ∈ d.names ++ names, '\\' ∉ name.toList := by
  obtain ⟨base, content, hdir, -, hnode⟩ := holds
  intro name hname
  rcases List.mem_append.1 hname with hname | hname
  · refine named.plain_of_directory hdir ?_
    rw [Path.components_join root ordinary]
    exact List.mem_append_right _ (List.mem_map_of_mem hname)
  · exact named.plain _ _ hnode name (List.mem_append_right _ hname)

namespace Met

variable {location base : Location} {f : Found}

theorem holdsFile (met : Met t root d location base names f) : t.HoldsFile root d names :=
  ⟨base, f.content, met.leads, met.below.1, met.below.2 ▸ met.stands⟩

/-- Seen from the root, a file is spelled with the names of its source directory and its own. -/
theorem path_eq (met : Met t root d location base names f) (named : t.WellNamed)
    (ordinary : d.Ordinary) : f.path = ⟨Path.spelled (d.names ++ names)⟩ := by
  have entries := met.holdsFile.entryNames named ordinary
  rw [met.spelled]
  refine Path.relativeTo_of_components entries ?_
  rw [Path.components_below _ fun name hname => entries name (List.mem_append_right _ hname),
    Path.components_join root ordinary, List.map_append, List.append_assoc]

theorem name_eq (met : Met t root d location base names f) :
    (d.names ++ names).getLast? = some f.name := by
  rw [List.getLast?_append, met.named, List.getLast?_eq_some_getLast met.below.1]
  rfl

end Met

end Files

/-! ## Files that are to be compiled -/

def Language.extension : Language → String
  | .c => "c"
  | .cxx => "cxx"

/-- The last of the names has the language's extension behind something. -/
def Language.Marks (language : Language) (names : List String) : Prop :=
  ∃ stem, stem ≠ "" ∧ names.getLast? = some (stem ++ "." ++ language.extension)

/-- The file of a path with these names is to be compiled. -/
structure Compiled (settings : Settings) (scanBuild : Bool) (names : List String) : Prop where
  /-- Its extension tells a language. -/
  marked : ∃ language : Language, language.Marks names
  /-- It is no benchmark. -/
  no_benchmark : settings.benchmarkMarker ≠ "" → ∀ name ∈ names.getLast?,
    ¬ settings.benchmarkMarker.toList <:+: name.toList
  /-- It is no example that is left out. -/
  kept : scanBuild = true → ¬ settings.examplesDir.names <+: names

theorem Language.ofPath?_eq_some_iff {p : Path} {names : List String}
    (h : p.components = names.map .name) {language : Language} :
    Language.ofPath? p = some language ↔ language.Marks names := by
  have hextension : ∀ extension, '.' ∉ extension.toList → (p.extension? = some extension ↔
      ∃ stem, stem ≠ "" ∧ names.getLast? = some (stem ++ "." ++ extension)) := by
    intro extension plain
    have hname : p.fileName? = names.getLast? := by
      rw [Path.fileName?, h, List.getLast?_map]
      cases names.getLast? <;> rfl
    rw [Path.extension?, hname]
    cases names.getLast? with
    | none => simp
    | some name => simpa using Path.extensionOf?_eq_some_iff plain
  have hplain : '.' ∉ language.extension.toList := by cases language <;> decide
  rw [Language.Marks, ← hextension _ hplain, Language.ofPath?]
  split
  · next hc =>
    rw [hc]
    cases language <;> simp [Language.extension]
  · next hcxx =>
    rw [hcxx]
    cases language <;> simp [Language.extension]
  · next hc hcxx =>
    refine iff_of_false nofun ?_
    cases language with
    | c => exact hc
    | cxx => exact hcxx

/-- What a source is said to be follows from the names of its path. -/
structure Source.Told (settings : Settings) (s : Source) (names : List String) : Prop where
  path : s.path = spelled names
  language : s.language.Marks names
  isExample : s.isExample = true ↔ settings.examplesDir.names <+: names

section Recognised

variable {settings : Settings} {scanBuild : Bool} {f : Found} {names : List String}

/-- A path is among the examples if its names begin with those of their directory. -/
theorem startsWith_examples (examples : settings.examplesDir.Ordinary)
    (entries : ∀ name ∈ names, EntryName name) (hpath : f.path = ⟨spelled names⟩) :
    f.path.startsWith settings.examplesDir = true ↔ settings.examplesDir.names <+: names := by
  rw [hpath, Path.startsWith, List.isPrefixOf_iff_prefix, Path.components_spelled entries,
    examples.components_eq]
  exact List.prefix_map_iff_of_injective fun a b h => Component.name.inj h

/-- Whether a file is a source follows from the names of its path. -/
theorem source?_iff (examples : settings.examplesDir.Ordinary)
    (entries : ∀ name ∈ names, EntryName name) (hpath : f.path = ⟨spelled names⟩)
    (hname : names.getLast? = some f.name) :
    (∃ s, f.source? settings scanBuild = some s) ↔ Compiled settings scanBuild names := by
  have hexample := startsWith_examples examples entries hpath
  have hlanguage : ∀ language, Language.ofPath? f.path = some language ↔ language.Marks names :=
    fun _ => Language.ofPath?_eq_some_iff (by rw [hpath, Path.components_spelled entries])
  unfold Found.source?
  dsimp only
  split
  · next hout =>
    refine iff_of_false nofun fun compiled => ?_
    rcases hout with ⟨hmarker, hoccurs⟩ | ⟨hstarts, hscan⟩
    · exact compiled.no_benchmark hmarker f.name hname (Text.occursIn_iff.1 hoccurs)
    · exact compiled.kept hscan (hexample.1 hstarts)
  · next hin =>
    obtain ⟨hmarker, hkept⟩ := not_or.1 hin
    constructor
    · rintro ⟨s, h⟩
      obtain ⟨language, hofPath, -⟩ := Option.map_eq_some_iff.1 h
      refine ⟨⟨language, (hlanguage language).1 hofPath⟩, fun hne name hlast hinfix => hmarker ?_,
        fun hscan hprefix => hkept ⟨hexample.2 hprefix, hscan⟩⟩
      obtain rfl := Option.some.inj (hname.symm.trans hlast)
      exact ⟨hne, Text.occursIn_iff.2 hinfix⟩
    · rintro ⟨⟨language, hmarks⟩, -, -⟩
      rw [(hlanguage language).2 hmarks]
      exact ⟨_, rfl⟩

theorem told_of_source? (examples : settings.examplesDir.Ordinary)
    (entries : ∀ name ∈ names, EntryName name) (plain : ∀ name ∈ names, '\\' ∉ name.toList)
    (hpath : f.path = ⟨spelled names⟩) {s : Source} (h : f.source? settings scanBuild = some s) :
    s.Told settings names := by
  have hexample := startsWith_examples examples entries hpath
  have hlanguage : ∀ language, Language.ofPath? f.path = some language ↔ language.Marks names :=
    fun _ => Language.ofPath?_eq_some_iff (by rw [hpath, Path.components_spelled entries])
  obtain ⟨language, hofPath, rfl⟩ := Found.exists_language h
  refine ⟨?_, (hlanguage language).1 hofPath, hexample⟩
  rw [hpath]
  exact Path.slashed_spelled entries plain

end Recognised

/-! ## The walk of a source directory -/

/-- A walk comes by one file before the other: they part at two siblings, and that of the first file
has the smaller name. -/
def WalkedBefore (names names' : List String) : Prop :=
  ∃ shared a b rest rest', names = shared ++ a :: rest ∧ names' = shared ++ b :: rest' ∧ a < b

/-- Lists of names are ordered by the names at which they part, if neither goes on as the other. -/
theorem walkedBefore_of_lt {names names' : List String} (h : names < names') :
    (∃ rest, rest ≠ [] ∧ names' = names ++ rest) ∨ WalkedBefore names names' := by
  induction names generalizing names' with
  | nil =>
    cases names' with
    | nil => exact absurd h (List.lt_irrefl [])
    | cons b rest => exact .inl ⟨b :: rest, List.cons_ne_nil _ _, rfl⟩
  | cons a names ih =>
    cases names' with
    | nil => exact absurd h (List.not_lt_nil _)
    | cons b names' =>
      rcases List.cons_lt_cons_iff.1 h with hlt | ⟨rfl, hlt⟩
      · exact .inr ⟨[], a, b, names, names', rfl, rfl, hlt⟩
      · rcases ih hlt with ⟨rest, hne, rfl⟩ | ⟨shared, c, d, rest, rest', rfl, rfl, hcd⟩
        · exact .inl ⟨rest, hne, rfl⟩
        · exact .inr ⟨a :: shared, c, d, rest, rest', rfl, rfl, hcd⟩

theorem lt_of_append_lt {shared names names' : List String} (h : shared ++ names < shared ++ names') :
    names < names' := by
  induction shared with
  | nil => exact h
  | cons a shared ih =>
    rcases List.cons_lt_cons_iff.1 h with hlt | ⟨-, hlt⟩
    · exact absurd hlt (String.lt_irrefl a)
    · exact ih hlt

/-- What lies below a directory is listed in the order of the names that lead there. -/
theorem Tree.pairwise_below (t : Tree) (dir : Location) :
    (t.below dir).Pairwise fun e e' => e.1 < e'.1 := by
  refine List.Pairwise.filterMap _ ?_ t.nodes.sorted
  intro e e' hlt found hfound found' hfound'
  split at hfound
  · next hbelow =>
    split at hfound'
    · next hbelow' =>
      obtain ⟨rest, hrest⟩ := List.isPrefixOf_iff_prefix.1 hbelow.1
      obtain ⟨rest', hrest'⟩ := List.isPrefixOf_iff_prefix.1 hbelow'.1
      injection hfound with hfound
      injection hfound' with hfound'
      rw [← hfound, ← hfound', ← hrest, ← hrest', List.drop_left, List.drop_left]
      rw [← hrest, ← hrest'] at hlt
      exact lt_of_append_lt hlt
    · cases hfound'
  · cases hfound

/-- Of two files below a directory, none stands below the other. -/
theorem Tree.WellFormed.walkedBefore {t : Tree} (wf : t.WellFormed) {base : Location}
    {names names' : List String} {content content' : ByteArray} (h : names < names')
    (hnode : t.node? (base ++ names) = some (.file content))
    (hnode' : t.node? (base ++ names') = some (.file content')) : WalkedBefore names names' := by
  rcases walkedBefore_of_lt h with ⟨rest, hne, rfl⟩ | hbefore
  · rw [← List.append_assoc] at hnode'
    have hdir := wf.directory_above hne hnode'
    rw [hnode] at hdir
    cases hdir
  · exact hbefore

/-- The sources that the walk of one source directory finds. -/
def sourcesBelow (t : Tree) (root : Path) (settings : Settings) (scanBuild : Bool) (d : Path) :
    List Source :=
  (filesBelow t root d).filterMap (·.source? settings scanBuild)

theorem collectSources_eq (t : Tree) (root : Path) (settings : Settings) (scanBuild : Bool) :
    collectSources t root settings scanBuild =
      withoutRepeats [] (settings.sourceDirs.flatMap (sourcesBelow t root settings scanBuild)) :=
  congrArg (withoutRepeats []) List.filterMap_flatMap

theorem met_of_foundOf {t : Tree} {root d : Path} {base : Location} {names : List String}
    {node : Node} {f : Found} (hdir : t.directory? (root.join d) = some base)
    (hmem : (names, node) ∈ t.below base) (h : foundOf root (root.join d) (names, node) = some f) :
    Met t root d (base ++ names) base names f := by
  obtain ⟨hne, hnode⟩ := Tree.mem_below_iff.1 hmem
  cases node with
  | directory => cases h
  | link target => cases h
  | file content =>
    injection h with hf
    subst hf
    exact ⟨hdir, ⟨hne, rfl⟩, hnode, rfl, rfl⟩

/-- The walk of a source directory takes the file to which the names lead for a source. -/
structure Takes (t : Tree) (root : Path) (settings : Settings) (scanBuild : Bool) (d : Path)
    (s : Source) (names : List String) : Prop where
  holds : t.HoldsFile root d names
  compiled : Compiled settings scanBuild (d.names ++ names)
  told : s.Told settings (d.names ++ names)

section Walks

variable {t : Tree} {root d : Path} {settings : Settings} {scanBuild : Bool}
  (named : t.WellNamed) (examples : settings.examplesDir.Ordinary) (ordinary : d.Ordinary)
include named examples ordinary

/-- The walk takes the files that are to be compiled for sources, and no others. -/
theorem takes_of_met {location base : Location} {names : List String} {f : Found}
    (met : Met t root d location base names f) :
    (Compiled settings scanBuild (d.names ++ names) → ∃ s, f.source? settings scanBuild = some s) ∧
      ∀ s, f.source? settings scanBuild = some s →
        Takes t root settings scanBuild d s names := by
  have entries := met.holdsFile.entryNames named ordinary
  have plain := met.holdsFile.plain named ordinary
  have hpath := met.path_eq named ordinary
  have hcompiled : (∃ s, f.source? settings scanBuild = some s) ↔
      Compiled settings scanBuild (d.names ++ names) :=
    source?_iff examples entries hpath met.name_eq
  exact ⟨hcompiled.2, fun s hs =>
    ⟨met.holdsFile, hcompiled.1 ⟨s, hs⟩, told_of_source? examples entries plain hpath hs⟩⟩

theorem takes_of_mem {s : Source} (h : s ∈ sourcesBelow t root settings scanBuild d) :
    ∃ names, Takes t root settings scanBuild d s names := by
  obtain ⟨f, hf, hs⟩ := List.mem_filterMap.1 h
  obtain ⟨location, base, names, met⟩ := mem_filesBelow_iff.1 hf
  exact ⟨names, (takes_of_met named examples ordinary met).2 s hs⟩

theorem exists_mem_sourcesBelow {names : List String} (holds : t.HoldsFile root d names)
    (compiled : Compiled settings scanBuild (d.names ++ names)) :
    ∃ s ∈ sourcesBelow t root settings scanBuild d, s.path = spelled (d.names ++ names) := by
  obtain ⟨base, content, hdir, hne, hnode⟩ := holds
  have met : Met t root d (base ++ names) base names
      ⟨(names.foldl Path.child (root.join d)).relativeTo root, names.getLast?.getD "", content⟩ :=
    ⟨hdir, ⟨hne, rfl⟩, hnode, rfl, rfl⟩
  obtain ⟨htaken, htakes⟩ := takes_of_met named examples ordinary met
  obtain ⟨s, hs⟩ := htaken compiled
  exact ⟨s, List.mem_filterMap.2 ⟨_, mem_filesBelow_iff.2 ⟨_, _, _, met⟩, hs⟩,
    (htakes s hs).told.path⟩

/-- A walk finds its sources in its order. -/
theorem pairwise_sourcesBelow (wf : t.WellFormed) :
    (sourcesBelow t root settings scanBuild d).Pairwise fun s s' =>
      ∃ names names', Takes t root settings scanBuild d s names ∧
        Takes t root settings scanBuild d s' names' ∧ WalkedBefore names names' := by
  rw [sourcesBelow, filesBelow_eq]
  cases hdir : t.directory? (root.join d) with
  | none => exact List.Pairwise.nil
  | some base =>
    dsimp only
    rw [List.filterMap_filterMap, List.pairwise_filterMap]
    refine (t.pairwise_below base).imp_of_mem ?_
    rintro ⟨names, node⟩ ⟨names', node'⟩ hmem hmem' hlt s hs s' hs'
    obtain ⟨f, hf, hs⟩ := Option.bind_eq_some_iff.1 hs
    obtain ⟨f', hf', hs'⟩ := Option.bind_eq_some_iff.1 hs'
    have met := met_of_foundOf hdir hmem hf
    have met' := met_of_foundOf hdir hmem' hf'
    exact ⟨names, names', (takes_of_met named examples ordinary met).2 s hs,
      (takes_of_met named examples ordinary met').2 s' hs',
      wf.walkedBefore hlt met.stands met'.stands⟩

end Walks

/-! ## Sources that are kept -/

/-- A source that is kept is the first of its path. -/
theorem exists_split_of_mem {s : Source} {seen : List String} {sources : List Source}
    (h : s ∈ withoutRepeats seen sources) :
    ∃ before after, sources = before ++ s :: after ∧ s.path ∉ before.map (·.path) := by
  induction sources generalizing seen with
  | nil => cases h
  | cons first rest ih =>
    have hpath := ((withoutRepeats_spec seen (first :: rest)).2 s h).2
    rw [withoutRepeats] at h
    split at h
    · next hseen =>
      obtain ⟨before, after, hrest, hfresh⟩ := ih h
      refine ⟨first :: before, after, by rw [hrest]; rfl, ?_⟩
      rw [List.map_cons, List.mem_cons, not_or]
      exact ⟨fun hfirst => hpath (hfirst ▸ hseen), hfresh⟩
    · rcases List.mem_cons.1 h with rfl | h
      · exact ⟨[], rest, rfl, List.not_mem_nil⟩
      · obtain ⟨before, after, hrest, hfresh⟩ := ih h
        have hne := ((withoutRepeats_spec (first.path :: seen) rest).2 s h).2
        refine ⟨first :: before, after, by rw [hrest]; rfl, ?_⟩
        rw [List.map_cons, List.mem_cons, not_or]
        exact ⟨fun hfirst => hne (hfirst ▸ List.mem_cons_self), hfresh⟩

/-- The first source of a path is kept. -/
theorem mem_withoutRepeats_of_first {s : Source} {seen : List String} {before after : List Source}
    (fresh : s.path ∉ seen) (first : s.path ∉ before.map (·.path)) :
    s ∈ withoutRepeats seen (before ++ s :: after) := by
  induction before generalizing seen with
  | nil =>
    rw [List.nil_append, withoutRepeats, if_neg fresh]
    exact List.mem_cons_self
  | cons other before ih =>
    rw [List.map_cons, List.mem_cons, not_or] at first
    rw [List.cons_append, withoutRepeats]
    split
    · exact ih fresh first.2
    · refine List.mem_cons_of_mem _ (ih ?_ first.2)
      rw [List.mem_cons, not_or]
      exact ⟨first.1, fresh⟩

/-- What holds of the first sources of two paths holds of the sources that are kept. -/
theorem pairwise_withoutRepeats {R : Source → Source → Prop} {sources : List Source}
    (h : ∀ before s between s' after, sources = before ++ s :: (between ++ s' :: after) →
      s.path ∉ before.map (·.path) → s'.path ∉ (before ++ s :: between).map (·.path) → R s s') :
    (withoutRepeats [] sources).Pairwise R := by
  have rest : ∀ (rest before : List Source) (seen : List String),
      (∀ path, path ∈ seen ↔ path ∈ before.map (·.path)) → sources = before ++ rest →
      (withoutRepeats seen rest).Pairwise R := by
    intro rest
    induction rest with
    | nil => exact fun _ _ _ _ => List.Pairwise.nil
    | cons first rest ih =>
      intro before seen hseen hsources
      have hsplit : sources = (before ++ [first]) ++ rest := by
        rw [hsources, List.append_assoc]
        rfl
      rw [withoutRepeats]
      split
      · next hfirst =>
        refine ih (before ++ [first]) seen (fun path => ?_) hsplit
        rw [hseen, List.map_append, List.mem_append, List.map_singleton, List.mem_singleton]
        refine ⟨.inl, ?_⟩
        rintro (hbefore | rfl)
        · exact hbefore
        · exact (hseen _).1 hfirst
      · next hfirst =>
        refine List.pairwise_cons.2
          ⟨fun s' hs' => ?_, ih (before ++ [first]) _ (fun path => ?_) hsplit⟩
        · have hpath := ((withoutRepeats_spec _ rest).2 s' hs').2
          rw [List.mem_cons, not_or, hseen] at hpath
          obtain ⟨between, after, rfl, hbetween⟩ := exists_split_of_mem hs'
          refine h before first between s' after hsources (by rwa [← hseen]) ?_
          rw [List.map_append, List.map_cons, List.mem_append, List.mem_cons]
          exact not_or.2 ⟨hpath.2, not_or.2 ⟨hpath.1, hbetween⟩⟩
        · rw [List.mem_cons, hseen, List.map_append, List.mem_append, List.map_singleton,
            List.mem_singleton, or_comm]
  exact rest sources [] [] (fun _ => Iff.rfl) rfl

/-- An element of two lists that are put together stands in the first or in the second. -/
theorem append_cons_cases {β : Type} {l m before after : List β} {b : β}
    (h : l ++ m = before ++ b :: after) :
    (∃ rest, l = before ++ b :: rest ∧ after = rest ++ m) ∨
      ∃ front, before = l ++ front ∧ m = front ++ b :: after := by
  rcases List.append_eq_append_iff.1 h with hright | ⟨rest, hl, hrest⟩
  · exact .inr hright
  · cases rest with
    | nil => exact .inr ⟨[], by simpa using hl.symm, by simpa using hrest.symm⟩
    | cons c rest =>
      injection hrest with hc hrest
      exact .inl ⟨rest, by rw [hl, hc], hrest⟩

/-- An element of many lists that are put together stands in one of them. -/
theorem exists_list {α β : Type} {f : α → List β} {l : List α} {before after : List β} {b : β}
    (h : l.flatMap f = before ++ b :: after) :
    ∃ front a back b₁ b₂, l = front ++ a :: back ∧ f a = b₁ ++ b :: b₂ ∧
      before = front.flatMap f ++ b₁ ∧ after = b₂ ++ back.flatMap f := by
  induction l generalizing before with
  | nil => simp at h
  | cons a l ih =>
    rw [List.flatMap_cons] at h
    rcases append_cons_cases h with ⟨b₂, ha, rfl⟩ | ⟨before', rfl, hl⟩
    · exact ⟨[], a, l, before, b₂, rfl, ha, rfl, rfl⟩
    · obtain ⟨front, a', back, b₁, b₂, rfl, ha', rfl, rfl⟩ := ih hl
      exact ⟨a :: front, a', back, b₁, b₂, rfl, ha', by simp, rfl⟩

/-! ## The sources of a project -/

/-- A path stands for a file below a source directory, the first one that holds it, counted from
zero. -/
structure FirstBelow (t : Tree) (root : Path) (dirs : List Path) (path : String) (i : Nat)
    (names : List String) : Prop where
  below : ∃ d, dirs[i]? = some d ∧ t.HoldsFile root d names ∧ path = spelled (d.names ++ names)
  first : ∀ d ∈ dirs.take i, ¬ t.Contains root d path

/-- A source comes before another one if its first source directory does, or if their first source
directory is the same and the walk comes by it first. -/
def SourceBefore (t : Tree) (root : Path) (dirs : List Path) (s s' : Source) : Prop :=
  ∃ i names i' names', FirstBelow t root dirs s.path i names ∧
    FirstBelow t root dirs s'.path i' names' ∧ (i < i' ∨ i = i' ∧ WalkedBefore names names')

/-- Sources are those of a project. -/
structure Discovered (t : Tree) (root : Path) (settings : Settings) (scanBuild : Bool)
    (sources : List Source) : Prop where
  /-- Their paths are those of the files below the source directories that are to be compiled. -/
  paths : ∀ path, path ∈ sources.map (·.path) ↔ ∃ d ∈ settings.sourceDirs, ∃ names,
    t.HoldsFile root d names ∧ Compiled settings scanBuild (d.names ++ names) ∧
      path = spelled (d.names ++ names)
  /-- No path occurs twice. -/
  once : (sources.map (·.path)).Nodup
  /-- Their languages, and whether they are examples, are as their paths say. -/
  told : ∀ s ∈ sources, s.Told settings (Path.mk s.path).names
  /-- They come in the order of the first source directories that hold them, and in each of these in
  the order of the walk. -/
  ordered : sources.Pairwise (SourceBefore t root settings.sourceDirs)

section Projects

variable {t : Tree} {settings : Settings}
variable (named : t.WellNamed) (examples : settings.examplesDir.Ordinary)
include named examples

/-- A source that no earlier walk finds is below no earlier source directory. -/
theorem not_contains_of_fresh {root d : Path} {scanBuild : Bool} (ordinary : d.Ordinary)
    {names : List String} (entries : ∀ name ∈ names, EntryName name)
    (compiled : Compiled settings scanBuild names)
    (fresh : spelled names ∉ (sourcesBelow t root settings scanBuild d).map (·.path)) :
    ¬ t.Contains root d (spelled names) := by
  rintro ⟨names', holds, hpath⟩
  obtain rfl := Path.spelled_inj entries (holds.entryNames named ordinary) hpath
  obtain ⟨s, hs, hs'⟩ := exists_mem_sourcesBelow named examples ordinary holds compiled
  exact fresh (hs' ▸ List.mem_map_of_mem hs)

/-- A source that the walk of a directory finds and none before. -/
theorem firstBelow_of_fresh {root d : Path} {scanBuild : Bool} {front back : List Path}
    (ordinary : ∀ e ∈ front ++ d :: back, e.Ordinary) {s : Source} {names : List String}
    (takes : Takes t root settings scanBuild d s names)
    (fresh : s.path ∉ (front.flatMap (sourcesBelow t root settings scanBuild)).map (·.path)) :
    FirstBelow t root (front ++ d :: back) s.path front.length names := by
  refine ⟨⟨d, by simp, takes.holds, takes.told.path⟩, fun e he => ?_⟩
  rw [List.take_left] at he
  rw [takes.told.path] at fresh ⊢
  refine not_contains_of_fresh named examples (ordinary e (List.mem_append_left _ he))
    (takes.holds.entryNames named (ordinary d (by simp))) takes.compiled fun hmem => fresh ?_
  obtain ⟨s', hs', hpath⟩ := List.mem_map.1 hmem
  exact List.mem_map.2 ⟨s', List.mem_flatMap.2 ⟨e, he, hs'⟩, hpath⟩

theorem pairwise_collectSources (wf : t.WellFormed)
    (dirs : ∀ d ∈ settings.sourceDirs, d.Ordinary) (root : Path) (scanBuild : Bool) :
    (collectSources t root settings scanBuild).Pairwise
      (SourceBefore t root settings.sourceDirs) := by
  rw [collectSources_eq]
  refine pairwise_withoutRepeats fun before s between s' after hsplit hs hs' => ?_
  obtain ⟨front, d, back, b₁, b₂, hdirs, hd, rfl, hafter⟩ := exists_list hsplit
  rw [hdirs] at dirs ⊢
  rw [List.map_append, List.mem_append, not_or] at hs
  rcases append_cons_cases hafter.symm with ⟨rest, rfl, -⟩ | ⟨between', rfl, hback⟩
  · -- the same walk finds both
    have hpairs := hd ▸ pairwise_sourcesBelow named examples (dirs d (by simp)) wf
    obtain ⟨names, names', takes, takes', hbefore⟩ :=
      (List.pairwise_cons.1 (List.pairwise_append.1 hpairs).2.1).1 s' (by simp)
    have hfresh' : s'.path ∉
        (front.flatMap (sourcesBelow t root settings scanBuild)).map (·.path) :=
      fun h => hs' (by simp only [List.map_append, List.mem_append]; exact .inl (.inl h))
    exact ⟨_, names, _, names', firstBelow_of_fresh named examples dirs takes hs.1,
      firstBelow_of_fresh named examples dirs takes' hfresh', .inr ⟨rfl, hbefore⟩⟩
  · -- a later walk finds the second
    obtain ⟨front', d', back', c₁, c₂, rfl, hd', rfl, -⟩ := exists_list hback
    have hmem : s ∈ sourcesBelow t root settings scanBuild d := by simp [hd]
    have hmem' : s' ∈ sourcesBelow t root settings scanBuild d' := by simp [hd']
    obtain ⟨names, takes⟩ := takes_of_mem named examples (dirs d (by simp)) hmem
    obtain ⟨names', takes'⟩ := takes_of_mem named examples (dirs d' (by simp)) hmem'
    have hdirs' : front ++ d :: (front' ++ d' :: back') = (front ++ d :: front') ++ d' :: back' := by
      simp
    have hfresh' : s'.path ∉
        ((front ++ d :: front').flatMap (sourcesBelow t root settings scanBuild)).map (·.path) := by
      intro h
      refine hs' ?_
      rw [List.flatMap_append, List.flatMap_cons, hd] at h
      simp only [List.map_append, List.map_cons, List.mem_append, List.mem_cons] at h ⊢
      tauto
    refine ⟨front.length, names, (front ++ d :: front').length, names',
      firstBelow_of_fresh named examples dirs takes hs.1, ?_, .inl (by simp)⟩
    rw [hdirs'] at dirs ⊢
    exact firstBelow_of_fresh named examples dirs takes' hfresh'

/-- The sources of a project are told by the files of its tree. -/
theorem discovered_collectSources (wf : t.WellFormed)
    (dirs : ∀ d ∈ settings.sourceDirs, d.Ordinary) (root : Path) (scanBuild : Bool) :
    Discovered t root settings scanBuild (collectSources t root settings scanBuild) := by
  have taken : ∀ s ∈ collectSources t root settings scanBuild,
      ∃ d ∈ settings.sourceDirs, ∃ names, Takes t root settings scanBuild d s names := by
    intro s hs
    rw [collectSources_eq] at hs
    obtain ⟨d, hd, hbelow⟩ := List.mem_flatMap.1 ((withoutRepeats_spec [] _).2 s hs).1
    exact ⟨d, hd, takes_of_mem named examples (dirs d hd) hbelow⟩
  refine ⟨fun path => ⟨fun h => ?_, ?_⟩, nodup_collectSources t root settings scanBuild,
    fun s hs => ?_, pairwise_collectSources named examples wf dirs root scanBuild⟩
  · obtain ⟨s, hs, rfl⟩ := List.mem_map.1 h
    obtain ⟨d, hd, names, takes⟩ := taken s hs
    exact ⟨d, hd, names, takes.holds, takes.compiled, takes.told.path⟩
  · rintro ⟨d, hd, names, holds, compiled, rfl⟩
    obtain ⟨s, hs, hpath⟩ := exists_mem_sourcesBelow named examples (dirs d hd) holds compiled
    rw [collectSources_eq, ← hpath]
    exact mem_paths_withoutRepeats [] _ List.not_mem_nil
      (List.mem_map_of_mem (List.mem_flatMap.2 ⟨d, hd, hs⟩))
  · obtain ⟨d, hd, names, takes⟩ := taken s hs
    rw [takes.told.path, Path.names_of_components
      (Path.components_spelled (takes.holds.entryNames named (dirs d hd)))]
    exact takes.told

end Projects

end BuildMatrix
