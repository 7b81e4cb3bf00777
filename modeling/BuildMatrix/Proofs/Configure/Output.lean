import BuildMatrix.Proofs.Configure.Run
import BuildMatrix.Proofs.Source.Discovery

/-!
# The files that a run writes

A run replaces three files in the build root: the build file, the list of targets and
the cache.  What stands at their names before may be a link, and then the paths of the
run may lead through it.  They do not if they lead to the same directories in a tree
without the outputs (`Direct`).

Between that tree and the one where the writing starts lie all the trees that come
about on the way: each has the directories and links of the smaller one, and no others
than those of the greater one (`Underway`).  So the build root and the source
directories stay what they are, the outputs stand beside each other, and a search for
sources goes as it went before.
-/

namespace BuildMatrix

/-- The names of the files that a run writes into the build root. -/
def outputNames : List String := [ninjaFileName, helpFileName, cacheFileName]

theorem barren_of_output {name : String} (h : name ∈ outputNames) : Barren name := by
  rcases List.mem_cons.1 h with rfl | h
  · exact ⟨by decide, by decide⟩
  rcases List.mem_cons.1 h with rfl | h
  · exact ⟨by decide, by decide⟩
  · rw [List.mem_singleton.1 h]
    exact ⟨by decide, by decide⟩

/-! ## Trees without outputs -/

/-- The locations of the outputs. -/
def Tree.outputs (t : Tree) (root : Path) : List Location :=
  outputNames.filterMap fun name =>
    match t.locate .entry (root.child name) with
    | .ok (.taken location _) => some location
    | _ => none

/-- The tree without the outputs. -/
def Tree.withoutOutputs (t : Tree) (root : Path) : Tree :=
  { t with nodes := t.nodes.filterKeys fun location => location ∉ t.outputs root }

/-- The build root and the source directories do not depend on what stands at the outputs. -/
structure Direct (root project : Path) (dirs : List Path) (t : Tree) : Prop where
  /-- The build root leads to the same directory without the outputs. -/
  buildRoot : (t.withoutOutputs root).directory? root = t.directory? root
  /-- And so does every source directory. -/
  sourceDirs : ∀ d ∈ dirs,
    (t.withoutOutputs root).directory? (project.join d) = t.directory? (project.join d)

section Without

variable {root : Path} {dir : Location} {t : Tree}

theorem node?_withoutOutputs {location : Location} (hroot : location ≠ []) :
    (t.withoutOutputs root).node? location =
      if location ∈ t.outputs root then none else t.node? location := by
  unfold Tree.node?
  rw [if_neg hroot, if_neg hroot, Tree.withoutOutputs, SortedMap.get?_filterKeys]
  by_cases hmem : location ∈ t.outputs root
  · rw [if_pos hmem, if_neg (fun h => of_decide_eq_true (p := ¬ _) h hmem)]
  · rw [if_neg hmem, if_pos (decide_eq_true hmem)]

theorem node?_of_withoutOutputs {location : Location} {node : Node}
    (h : (t.withoutOutputs root).node? location = some node) : t.node? location = some node := by
  by_cases hroot : location = []
  · rw [hroot] at h ⊢
    exact h
  · rw [node?_withoutOutputs hroot] at h
    split at h
    · cases h
    · exact h

theorem within_withoutOutputs (t : Tree) (root : Path) : Tree.Within (t.withoutOutputs root) t :=
  ⟨rfl, fun _ => node?_of_withoutOutputs, fun _ _ => node?_of_withoutOutputs⟩

theorem vacant_withoutOutputs {name : String} (hname : name ∈ outputNames) {front : List String}
    (entry : Tree.EntryAt t (root.child name) front dir name) :
    (t.withoutOutputs root).node? (dir ++ [name]) = none := by
  rw [node?_withoutOutputs (List.concat_ne_nil _ _)]
  split
  · rfl
  next hmem =>
  cases hnode : t.node? (dir ++ [name]) with
  | none => rfl
  | some node =>
    refine absurd (List.mem_filterMap.2 ⟨name, hname, ?_⟩) hmem
    rw [entry.locate (.inl rfl), Tree.placeOf_of_node hnode]

theorem Direct.leads {project : Path} {dirs : List Path} (direct : Direct root project dirs t)
    (leads : t.LeadsTo root dir) : (t.withoutOutputs root).LeadsTo root dir := by
  refine leads.imp_left fun hfind => ?_
  rw [← Tree.directory?_eq_some_iff, direct.buildRoot]
  exact Tree.directory?_eq_some_iff.2 hfind

/-- Where nothing but files stands at the outputs, no path depends on them. -/
theorem direct_of_files (files : ∀ name ∈ outputNames, ∀ location node,
      t.locate .entry (root.child name) = .ok (.taken location node) → ∃ c, node = .file c)
    (project : Path) (dirs : List Path) : Direct root project dirs t := by
  have hstays : ∀ {location : Location} {node : Node}, t.node? location = some node →
      (∀ c, node ≠ .file c) → (t.withoutOutputs root).node? location = some node := by
    intro location node hnode hfile
    by_cases hroot : location = []
    · rw [hroot] at hnode ⊢
      exact hnode
    rw [node?_withoutOutputs hroot, if_neg]
    · exact hnode
    · intro hmem
      obtain ⟨name, hname, hlocate⟩ := List.mem_filterMap.1 hmem
      split at hlocate
      · next found hfound =>
        injection hlocate with hlocation
        subst hlocation
        obtain ⟨c, rfl⟩ := files name hname _ _ hfound
        have hholds := Tree.holds_of_resolve (Tree.resolve_of_follow hfound)
        exact hfile c (Option.some.inj (hnode.symm.trans hholds))
      · cases hlocate
  have back : Tree.Within t (t.withoutOutputs root) :=
    ⟨rfl, fun _ hdir => hstays hdir fun _ h => (by cases h),
      fun _ _ hlink => hstays hlink fun _ h => (by cases h)⟩
  have same : Tree.Same (t.withoutOutputs root) t := ⟨within_withoutOutputs t root, back⟩
  exact ⟨(same.directory? root).symm, fun d _ => (same.directory? _).symm⟩

end Without

/-! ## Writing the outputs -/

/-- A tree on the way from the one where the writing starts, which has the directories and links of the
tree that the paths were tried on. -/
structure Underway (root project : Path) (dirs : List Path) (dir : Location) (t planned u : Tree) :
    Prop where
  /-- The paths were tried on a tree with a build root. -/
  base : Room root dir t
  /-- They do not depend on the outputs. -/
  direct : Direct root project dirs t
  /-- The writing starts with the same directories and links. -/
  same : Tree.Same t planned
  /-- The build root is still there. -/
  room : Room root dir u
  /-- Nothing is gone but what stood at the outputs. -/
  lower : Tree.Within (t.withoutOutputs root) u
  /-- Nothing has come. -/
  upper : Tree.Within u planned

section Outputs

variable {root project : Path} {settings : Settings} {dir : Location} {t planned u v : Tree}

theorem Underway.directory? {dirs : List Path} (underway : Underway root project dirs dir t planned u)
    {d : Path} (hd : d ∈ dirs) : u.directory? (project.join d) = planned.directory? (project.join d) := by
  refine underway.lower.directory?_between underway.upper ?_
  rw [underway.direct.sourceDirs d hd, underway.same.directory?]

theorem Underway.write {name : String}
    (underway : Underway root project settings.sourceDirs dir t planned u)
    (hname : name ∈ outputNames) {text : String}
    (h : Tree.replaceText (root.child name) text u = .ok () v) :
    v = u.put (dir ++ [name]) (.file text.toUTF8) ∧ Writable root dir u name ∧
      Underway root project settings.sourceDirs dir t planned v ∧
      ∀ refusal? scanBuild, findSources refusal? v project settings scanBuild =
        findSources refusal? u project settings scanBuild := by
  have barren := barren_of_output hname
  obtain ⟨writable, rfl⟩ := (underway.room.replaceText_iff barren.plain).1 h
  have hroot : dir ++ [name] ≠ [] := List.concat_ne_nil _ _
  obtain ⟨front, entry⟩ := writable.entry underway.room
  have hvacant := vacant_withoutOutputs hname
    (underway.base.leads.entryAt underway.base.wf entry.ends entry.short entry.followable)
  have lower := underway.lower.put hroot hvacant text.toUTF8
  have written : Underway root project settings.sourceDirs dir t planned
      (u.put (dir ++ [name]) (.file text.toUTF8)) :=
    ⟨underway.base, underway.direct, underway.same,
      ⟨writable.wellFormed_put underway.room _,
        (underway.direct.leads underway.base.leads).within lower⟩,
      lower, (Tree.put_within hroot _).trans underway.upper⟩
  refine ⟨rfl, writable, written, findSources_put barren writable.free fun d hd => ?_⟩
  rw [written.directory? hd, underway.directory? hd]

/-- When the three outputs were written they stand in the build root, and a search for sources goes as
when the writing started. -/
theorem exists_stands {t₁ t₂ t₃ : Tree} {build list kept : String} (wf : t.WellFormed)
    (there : root.text = "" ∨ t.reaches root = true)
    (direct : Direct root project settings.sourceDirs t) (changes : Tree.Changes t planned)
    (same : Tree.Same t planned)
    (ninja : Tree.replaceText (root.child ninjaFileName) build planned = .ok () t₁)
    (help : Tree.replaceText (root.child helpFileName) list t₁ = .ok () t₂)
    (cache : Tree.replaceText (root.child cacheFileName) kept t₂ = .ok () t₃) :
    ∃ dir, Room root dir t₃ ∧ Stands root dir t₃ ninjaFileName build ∧
      Stands root dir t₃ helpFileName list ∧ Stands root dir t₃ cacheFileName kept ∧
      ∀ refusal? scanBuild, findSources refusal? t₃ project settings scanBuild =
        findSources refusal? planned project settings scanBuild := by
  have there' := there.imp_right changes.1.reaches
  obtain ⟨dir, room⟩ := exists_room (changes.2 wf) there' (by decide) ninja
  have start : Underway root project settings.sourceDirs dir t planned planned :=
    ⟨⟨wf, room.leads.before changes.1 there⟩, direct, same, room,
      (within_withoutOutputs t root).trans same.1, .refl _⟩
  obtain ⟨rfl, writable₁, underway₁, hsources₁⟩ := start.write (by decide) ninja
  obtain ⟨rfl, writable₂, underway₂, hsources₂⟩ := underway₁.write (by decide) help
  obtain ⟨rfl, writable₃, underway₃, hsources₃⟩ := underway₂.write (by decide) cache
  refine ⟨dir, underway₃.room, ?_, ?_, writable₃.stands _, fun refusal? scanBuild => ?_⟩
  · exact ((writable₁.stands _).put (by decide) _).put (by decide) _
  · exact (writable₂.stands _).put (by decide) _
  · rw [hsources₃, hsources₂, hsources₁]

end Outputs

end BuildMatrix
