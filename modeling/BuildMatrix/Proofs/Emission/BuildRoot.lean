import BuildMatrix.Configure
import BuildMatrix.Proofs.Emission.Places

/-!
# The build root in the graph

A run derives the directory of a variant twice.  It writes its files into the build
root, which is the build directory joined to the project root.  The paths of the graph
begin with the build directory as a text, with slashes for backslashes and none at the
end, and whoever runs the graph starts at the project root.

Up to the backslashes the two derivations agree, whatever else the build directory looks
like: relative or absolute, with dots, steps upward or slashes too many
(`components_variantDir`).  Two build directories are left out.  One with a backslash is
two different names on the two sides, and an empty one makes the paths of the graph start
at the root directory.  These are all exceptions (`variantDir_agrees_iff`).  Where they
agree, both lead to the same directory in every tree, and everything that a variant makes
lies there.
-/

namespace BuildMatrix

open BuildMatrix.Path (Proper)
open BuildMatrix.Tree (Followable)

/-- The emitter of a run. -/
def Options.emitter (o : Options) (settings : Settings) (tc : Toolchain) (b : Baseline)
    (launcher : Option String) : Emitter :=
  ⟨tc, b, settings, Emitter.directoryText (o.buildDirectory settings), launcher⟩

theorem graphOf_eq (o : Options) (settings : Settings) (tc : Toolchain) (b : Baseline)
    (launcher : Option String) (variants : VariantSet) (sources : List Source) :
    graphOf tc b settings (o.buildDirectory settings) launcher variants sources =
      (o.emitter settings tc b launcher).emit variants sources := rfl

/-! ## Backslashes -/

namespace Path

theorem slashed_of_unslashed {p : Path} (h : '\\' ∉ p.text.toList) : p.slashed = p.text := by
  apply String.toList_inj.1
  rw [slashed, Text.swap, String.toList_map]
  refine (List.map_congr_left fun c hc => if_neg ?_).trans (List.map_id _)
  rintro rfl
  exact h hc

theorem unslashed_slashed (p : Path) : '\\' ∉ p.slashed.toList := by
  rw [slashed, Text.swap, String.toList_map]
  intro h
  obtain ⟨c, -, hc⟩ := List.mem_map.1 h
  split at hc
  · cases hc
  · next hne => exact hne hc

theorem slashed_ne_empty {p : Path} (h : p.text ≠ "") : p.slashed ≠ "" := by
  intro hempty
  have hlist := congrArg String.toList hempty
  rw [slashed, Text.swap, String.toList_map] at hlist
  exact h (String.toList_eq_nil_iff.1 (List.map_eq_nil_iff.1 hlist))

theorem isAbsolute_slashed {p : Path} (h : p.isAbsolute = true) :
    (Path.mk p.slashed).isAbsolute = true := by
  have hhead : p.text.toList.head? = some '/' := of_decide_eq_true h
  refine decide_eq_true ?_
  rw [slashed, Text.swap, String.toList_map, List.head?_map, hhead]
  rfl

/-- A backslash is part of a name. -/
theorem exists_step_of_backslash {p : Path} (h : '\\' ∈ p.text.toList) :
    ∃ name, .name name ∈ p.steps ∧ '\\' ∈ name.toList := by
  obtain ⟨piece, hpiece, hmem⟩ := (mem_pieces_iff (by decide)).2 h
  have proper : Proper piece := by
    constructor
    · rintro (rfl | rfl)
      · exact absurd hmem (by decide)
      · exact absurd hmem (by decide)
    · rintro rfl
      exact absurd hmem (by decide)
  exact ⟨piece, List.mem_filterMap.2 ⟨piece, hpiece, component?_of_proper proper⟩, hmem⟩

theorem steps_ne_slashed {p : Path} (h : '\\' ∈ p.text.toList) (front : List Component) :
    (Path.mk p.slashed).steps ≠ front ++ p.steps := by
  intro heq
  obtain ⟨name, hname, hmem⟩ := exists_step_of_backslash h
  have hslashed : .name name ∈ (Path.mk p.slashed).steps := heq ▸ List.mem_append_right _ hname
  obtain ⟨piece, hpiece, hcomponent⟩ := List.mem_filterMap.1 hslashed
  obtain rfl := eq_of_component?_eq_name hcomponent
  exact p.unslashed_slashed ((mem_pieces_iff (by decide)).1 ⟨piece, hpiece, hmem⟩)

/-- With slashes for backslashes a path is another one, whatever it is joined to. -/
theorem components_join_slashed_ne {p : Path} (h : '\\' ∈ p.text.toList) (root : Path) :
    (root.join ⟨p.slashed⟩).components ≠ (root.join p).components := by
  intro heq
  obtain ⟨-, hsteps⟩ := components_eq_iff.1 heq
  by_cases hroot : root.text = ""
  · rw [join_of_empty hroot, join_of_empty hroot] at hsteps
    exact steps_ne_slashed h [] hsteps
  by_cases hslashed : (Path.mk p.slashed).isAbsolute = true
  · rw [join_of_absolute hslashed] at hsteps
    by_cases habsolute : p.isAbsolute = true
    · rw [join_of_absolute habsolute] at hsteps
      exact steps_ne_slashed h [] hsteps
    · rw [(join_of_relative habsolute hroot).2.2] at hsteps
      exact steps_ne_slashed h _ hsteps
  · rw [(join_of_relative hslashed hroot).2.2,
      (join_of_relative (mt isAbsolute_slashed hslashed) hroot).2.2] at hsteps
    exact steps_ne_slashed h [] (List.append_cancel_left hsteps)

end Path

/-! ## The directory of a variant -/

section Agreement

variable {o : Options} {settings : Settings} {tc : Toolchain} {b : Baseline}
  {launcher : Option String} {v : String}

/-- The graph shows the build directory as it is: nothing in it is taken for a slash, and it does not
vanish in front of one. -/
structure Shown (root dir : Path) : Prop where
  /-- There is no backslash in it. -/
  unslashed : '\\' ∉ dir.text.toList
  /-- It is not empty, unless everything starts at the root directory anyway. -/
  not_empty : dir.text = "" → root.components = [.root]

theorem variantDir_emitter : (o.emitter settings tc b launcher).variantDir v =
    Text.trimEnd '/' (o.buildDirectory settings).slashed ++ "/" ++ v := rfl

/-- The directory that the graph uses for a variant is that of the build directory with slashes for
backslashes. -/
theorem components_variantDir (hv : v ∈ variantNames) (hne : (o.buildDirectory settings).text ≠ "") :
    (o.projectRoot.join ⟨(o.emitter settings tc b launcher).variantDir v⟩).components =
      ((o.projectRoot.join ⟨(o.buildDirectory settings).slashed⟩).child v).components := by
  have single := slash_not_mem_of_mem_variantNames hv
  have proper := Emitter.proper_of_mem_variantNames hv
  obtain ⟨hlead, hsteps⟩ := Path.components_trimEnd_slash (Path.slashed_ne_empty hne) v
  rw [Path.steps_single single proper] at hsteps
  rw [variantDir_emitter, Path.components_eq_iff]
  obtain ⟨hchild, hchild'⟩ :=
    (o.projectRoot.join ⟨(o.buildDirectory settings).slashed⟩).steps_child single proper
  obtain ⟨hgraph, hgraph'⟩ := Path.join_append hlead hsteps o.projectRoot
  rw [hchild, hchild', hgraph, hgraph']
  exact ⟨rfl, rfl⟩

/-- Of an empty build directory the graph makes a directory below the root directory. -/
theorem components_variantDir_of_empty (hv : v ∈ variantNames)
    (hempty : (o.buildDirectory settings).text = "") :
    (o.projectRoot.join ⟨(o.emitter settings tc b launcher).variantDir v⟩).components =
      [.root] ++ [.name v] := by
  have hd : o.buildDirectory settings = ⟨""⟩ := congrArg Path.mk hempty
  have htext : Text.trimEnd '/' (Path.mk "").slashed = "" := by decide +kernel
  have hlead : (Path.mk ("" ++ "/" ++ v)).lead = [.root] :=
    (Path.lead_slash "" v).trans (by decide)
  rw [variantDir_emitter, hd, htext, Path.join_of_absolute (Path.isAbsolute_iff.2 hlead),
    Path.components_eq, hlead, Path.steps_slash, Path.steps_single
      (slash_not_mem_of_mem_variantNames hv) (Emitter.proper_of_mem_variantNames hv)]
  rfl

/-- The build root is the project root then. -/
theorem components_buildRoot_of_empty (hempty : (o.buildDirectory settings).text = "") :
    (o.buildRoot settings).components = o.projectRoot.components := by
  have hd : o.buildDirectory settings = ⟨""⟩ := congrArg Path.mk hempty
  rw [Options.buildRoot, hd]
  by_cases hroot : o.projectRoot.text = ""
  · rw [Path.join_of_empty hroot]
    exact congrArg Path.components (congrArg Path.mk hroot).symm
  · have hrelative : ¬ (Path.mk "").isAbsolute = true := by decide
    obtain ⟨-, hlead, hsteps⟩ := Path.join_of_relative hrelative hroot
    rw [Path.components_eq_iff, hlead, hsteps]
    exact ⟨rfl, List.append_nil _⟩

theorem relative_of_mem_below {e : Emitter} {sources : List Source} {rest : String}
    (h : rest ∈ e.below sources) : ¬ (Path.mk rest).isAbsolute = true := by
  have hletter : ∀ x y : String, x ∈ ["objs/", registrationStem, "runner"] →
      ¬ (Path.mk (x ++ y)).isAbsolute = true := by
    intro x y hx
    rcases List.mem_cons.1 hx with rfl | hx
    · simp [Path.isAbsolute]
    rcases List.mem_cons.1 hx with rfl | hx
    · simp [Path.isAbsolute, registrationStem]
    · rw [List.mem_singleton.1 hx]
      simp [Path.isAbsolute]
  unfold Emitter.below at h
  rcases List.mem_append.1 h with h | h
  · rcases List.mem_append.1 h with h | h
    · obtain ⟨s, -, rfl⟩ := List.mem_map.1 h
      exact hletter _ _ (by simp)
    · split at h
      · rcases List.mem_cons.1 h with rfl | h
        · exact hletter _ _ (by simp)
        · rw [List.mem_singleton.1 h]
          exact hletter _ _ (by simp)
      · cases h
  · rw [List.mem_singleton.1 h]
    exact hletter _ _ (by simp)

/-- What a variant makes has the same path from the project root, by the graph, and from the
directory of the variant in the build root, if that is the directory of the graph. -/
theorem components_inside (hv : v ∈ variantNames)
    (h : (o.projectRoot.join ⟨(o.emitter settings tc b launcher).variantDir v⟩).components =
      ((o.buildRoot settings).child v).components) {sources : List Source} {rest : String}
    (hrest : rest ∈ (o.emitter settings tc b launcher).below sources) :
    (o.projectRoot.join ⟨(o.emitter settings tc b launcher).inside v rest⟩).components =
      (((o.buildRoot settings).child v).join ⟨rest⟩).components := by
  have hne : (o.emitter settings tc b launcher).variantDir v ≠ "" := by
    rw [variantDir_emitter]
    intro hempty
    have hslash := (String.append_eq_empty_iff.1 (String.append_eq_empty_iff.1 hempty).1).2
    exact absurd hslash (by decide)
  have hchild : ((o.buildRoot settings).child v).text ≠ "" := by
    intro hempty
    have hsteps := ((o.buildRoot settings).steps_child (slash_not_mem_of_mem_variantNames hv)
      (Emitter.proper_of_mem_variantNames hv)).2
    have hchild : (o.buildRoot settings).child v = ⟨""⟩ := congrArg Path.mk hempty
    rw [hchild] at hsteps
    exact List.concat_ne_nil _ _ hsteps.symm
  obtain ⟨hlead, hsteps⟩ := Path.components_eq_iff.1 h
  obtain ⟨hinside, hinside'⟩ := Path.join_append (Path.lead_slash_of_ne hne rest)
    (Path.steps_slash _ rest) o.projectRoot
  obtain ⟨-, hbelow, hbelow'⟩ := Path.join_of_relative (relative_of_mem_below hrest) hchild
  rw [Emitter.inside_eq, Path.components_eq_iff, hinside, hinside', hbelow, hbelow', hlead, hsteps]
  exact ⟨rfl, rfl⟩

/-- The directory that the graph uses for a variant, seen from the project root, is the directory of
the variant in the build root exactly if the graph shows the build directory as it is.  Then both
lead to the same directory in every tree, and all that the variant makes has its place there. -/
theorem variantDir_agrees_iff (o : Options) (settings : Settings) (tc : Toolchain) (b : Baseline)
    (launcher : Option String) {v : String} (hv : v ∈ variantNames) :
    ((o.projectRoot.join ⟨(o.emitter settings tc b launcher).variantDir v⟩).components =
        ((o.buildRoot settings).child v).components ↔
      Shown o.projectRoot (o.buildDirectory settings)) ∧
    (Shown o.projectRoot (o.buildDirectory settings) →
      (∀ t : Tree,
        Followable (o.projectRoot.join ⟨(o.emitter settings tc b launcher).variantDir v⟩) →
        Followable ((o.buildRoot settings).child v) →
        t.directory? (o.projectRoot.join ⟨(o.emitter settings tc b launcher).variantDir v⟩) =
          t.directory? ((o.buildRoot settings).child v)) ∧
      ∀ sources, ∀ rest ∈ (o.emitter settings tc b launcher).below sources,
        (o.projectRoot.join ⟨(o.emitter settings tc b launcher).inside v rest⟩).components =
          (((o.buildRoot settings).child v).join ⟨rest⟩).components) := by
  have single := slash_not_mem_of_mem_variantNames hv
  have proper := Emitter.proper_of_mem_variantNames hv
  have agrees : (o.projectRoot.join ⟨(o.emitter settings tc b launcher).variantDir v⟩).components =
        ((o.buildRoot settings).child v).components ↔
      Shown o.projectRoot (o.buildDirectory settings) := by
    by_cases hempty : (o.buildDirectory settings).text = ""
    · rw [components_variantDir_of_empty hv hempty, Path.components_child _ single proper,
        components_buildRoot_of_empty hempty]
      constructor
      · intro heq
        refine ⟨by rw [hempty]; decide, fun _ => ?_⟩
        exact (List.append_cancel_right heq).symm
      · intro shown
        rw [shown.not_empty hempty]
    · rw [components_variantDir hv hempty, Path.components_child _ single proper,
        Path.components_child _ single proper]
      constructor
      · intro heq
        refine ⟨fun hslash => Path.components_join_slashed_ne hslash o.projectRoot ?_,
          fun h => absurd h hempty⟩
        exact List.append_cancel_right heq
      · intro shown
        rw [Path.slashed_of_unslashed shown.unslashed]
        rfl
  refine ⟨agrees, fun shown => ?_⟩
  have heq := agrees.2 shown
  exact ⟨fun t hgraph hchild => Tree.directory?_of_components t hgraph hchild heq,
    fun sources rest hrest => components_inside hv heq hrest⟩

end Agreement

/-! ## Spellings -/

/-- A run in a project with a build directory as somebody might spell it. -/
def spelled (buildDir : String) : Options := { projectRoot := ⟨"p"⟩, buildDir := some ⟨buildDir⟩ }

/-- Dots and too many slashes do no harm. -/
theorem variantDir_agrees_spelled :
    (Path.join ⟨"p"⟩ ⟨((spelled "./out//").emitter {} ⟨⟨.gcc, "gcc", ⟨"gcc"⟩⟩⟩ {} none).variantDir
      "default-debug"⟩).components =
      (((spelled "./out//").buildRoot {}).child "default-debug").components := by
  have hv : "default-debug" ∈ variantNames := by decide +kernel
  refine (variantDir_agrees_iff (spelled "./out//") {} ⟨⟨.gcc, "gcc", ⟨"gcc"⟩⟩⟩ {} none hv).1.2 ?_
  refine ⟨by decide +kernel, fun hempty => ?_⟩
  exact absurd hempty (by decide +kernel)

/-- Without a build directory a project is configured into its root, but its graph is not. -/
theorem variantDir_escapes :
    (Path.join ⟨"p"⟩ ⟨((spelled "").emitter {} ⟨⟨.gcc, "gcc", ⟨"gcc"⟩⟩⟩ {} none).variantDir
        "default-debug"⟩).components = [.root, .name "default-debug"] ∧
      (((spelled "").buildRoot {}).child "default-debug").components =
        [.name "p", .name "default-debug"] := by
  decide +kernel

end BuildMatrix
