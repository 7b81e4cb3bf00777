import BuildMatrix.Emit
import BuildMatrix.Proofs.Variant.Names
import Mathlib.Data.List.Nodup

/-!
# The targets of a build graph

A target of the graph belongs to one variant or to none.  What belongs to a
variant is its bare name, the target that runs it, or a path inside its directory
(`Emitter.Belongs`), and nothing belongs to two variants (`Belongs.unique`).  The
directory of a variant is told by the first slash behind the build directory,
because no name of a variant holds one.  The bare names are told apart by going
through the list of names that the matrix can use.

Inside the directory of a variant the paths are the same for all variants
(`Emitter.below`).  They differ from each other exactly if no two objects have the
same name, the object of the generated file included
(`nodup_below_iff`).  So whether the targets of the whole graph differ is a matter of the
stems of the sources alone (`nodup_targets_iff`).
-/

namespace BuildMatrix

open Text

/-! ## Names without slashes -/

/-- What stands before and after the first occurrence of a character can be read off a list. -/
theorem split_at_first {c : Char} {x y r q : List Char} (hx : c ∉ x) (hy : c ∉ y)
    (h : x ++ c :: r = y ++ c :: q) : x = y ∧ r = q := by
  induction x generalizing y with
  | nil =>
    cases y with
    | nil =>
      injection h with _ h
      exact ⟨rfl, h⟩
    | cons d y =>
      injection h with hcd _
      exact absurd (hcd ▸ List.mem_cons_self) hy
  | cons b x ih =>
    cases y with
    | nil =>
      injection h with hbc _
      exact absurd (hbc ▸ List.mem_cons_self) hx
    | cons d y =>
      injection h with hbd h
      obtain ⟨hxy, hrq⟩ := ih (List.not_mem_of_not_mem_cons hx) (List.not_mem_of_not_mem_cons hy) h
      exact ⟨by rw [hbd, hxy], hrq⟩

theorem slash_not_mem_of_mem_variantNames {name : String} (h : name ∈ variantNames) :
    '/' ∉ name.toList :=
  not_mem_of_mem_variantNames h (by decide)

theorem runTarget_not_mem_variantNames {name : String} (h : name ∈ variantNames) :
    runTarget name ∉ variantNames := by
  have all : ∀ name ∈ variantNames, runTarget name ∉ variantNames := by decide
  exact all name h

theorem slash_not_mem_runTarget {name : String} (h : name ∈ variantNames) :
    '/' ∉ (runTarget name).toList := by
  rw [runTarget, String.toList_append, List.mem_append, not_or]
  exact ⟨by decide, slash_not_mem_of_mem_variantNames h⟩

theorem runTarget_inj {v w : String} (h : runTarget v = runTarget w) : v = w := by
  unfold runTarget at h
  exact String.append_right_inj _ |>.1 h

/-- The targets that run several variants. -/
def aggregateNames : List String := [defaultTarget, allTarget, moreTarget]

theorem not_mem_aggregateNames {name : String} (h : name ∈ variantNames) :
    name ∉ aggregateNames ∧ runTarget name ∉ aggregateNames := by
  have all : ∀ name ∈ variantNames, name ∉ aggregateNames ∧ runTarget name ∉ aggregateNames := by
    decide
  exact all name h

namespace Emitter

variable (e : Emitter)

/-! ## Inside the directory of a variant -/

/-- A path inside the directory of a variant. -/
def inside (variant rest : String) : String := e.buildDir ++ ("/" ++ (variant ++ ("/" ++ rest)))

variable {e}

theorem toList_inside (variant rest : String) :
    (e.inside variant rest).toList =
      e.buildDir.toList ++ ('/' :: (variant.toList ++ '/' :: rest.toList)) := by
  simp [inside]

theorem slash_mem_inside (variant rest : String) : '/' ∈ (e.inside variant rest).toList := by
  simp [toList_inside]

/-- The variant and the rest can be read off the path. -/
theorem inside_inj {v w r q : String} (hv : v ∈ variantNames) (hw : w ∈ variantNames) :
    e.inside v r = e.inside w q ↔ v = w ∧ r = q := by
  constructor
  · intro h
    have hlist := congrArg String.toList h
    rw [toList_inside, toList_inside] at hlist
    injection List.append_cancel_left hlist with _ hrest
    obtain ⟨hname, htail⟩ := split_at_first (slash_not_mem_of_mem_variantNames hv)
      (slash_not_mem_of_mem_variantNames hw) hrest
    exact ⟨String.toList_inj.1 hname, String.toList_inj.1 htail⟩
  · rintro ⟨rfl, rfl⟩
    rfl

theorem objectTarget_eq (v : String) (s : Source) :
    e.objectTarget v s = e.inside v ("objs/" ++ (s.stem ++ e.toolchain.objectExtension)) := by
  apply String.toList_inj.1
  simp [objectTarget, objectDir, variantDir, inside, Source.objectName]

theorem generatedTarget_eq (v : String) :
    e.generatedTarget v = e.inside v (registrationStem ++ ".c") := by
  apply String.toList_inj.1
  simp [generatedTarget, variantDir, inside]

theorem registrationTarget_eq (v : String) :
    e.registrationTarget v =
      e.inside v ("objs/" ++ (registrationStem ++ e.toolchain.objectExtension)) := by
  apply String.toList_inj.1
  simp [registrationTarget, objectDir, variantDir, inside]

theorem runnerTarget_eq (v : String) :
    e.runnerTarget v = e.inside v ("runner" ++ e.toolchain.exeExtension) := by
  apply String.toList_inj.1
  simp [runnerTarget, variantDir, inside]

/-! ## The targets of one variant -/

variable (e) in
/-- What the edges of a variant make inside its directory. -/
def below (sources : List Source) : List String :=
  (sources.filter e.compilable).map (fun s => "objs/" ++ (s.stem ++ e.toolchain.objectExtension)) ++
    (if e.baseline.manualRegistration then
      [registrationStem ++ ".c", "objs/" ++ (registrationStem ++ e.toolchain.objectExtension)]
     else []) ++
    ["runner" ++ e.toolchain.exeExtension]

theorem targets_variantEdges (sources : List Source) (v : Variant) :
    (e.variantEdges sources v).map Edge.target =
      (e.below sources).map (e.inside v.name) ++ [v.name, runTarget v.name] := by
  unfold variantEdges below
  simp only [List.map_append, List.map_map, List.append_assoc, List.map_cons, List.map_nil,
    List.cons_append, List.nil_append]
  congr 1
  · exact List.map_congr_left fun s _ => objectTarget_eq v.name s
  congr 1
  · split
    · simp [registrationEdges, generatedTarget_eq, registrationTarget_eq]
    · rfl
  · simp [linkEdge, Edge.alias, runEdge, runnerTarget_eq]

/-! ## What belongs to a variant -/

variable (e) in
/-- A target belongs to a variant: it is its name, the target that runs it, or inside its
directory. -/
def Belongs (v target : String) : Prop :=
  target = v ∨ target = runTarget v ∨ ∃ rest, target = e.inside v rest

theorem belongs_of_mem_targets {sources : List Source} {v : Variant} {target : String}
    (h : target ∈ (e.variantEdges sources v).map Edge.target) : e.Belongs v.name target := by
  rw [targets_variantEdges, List.mem_append] at h
  rcases h with h | h
  · obtain ⟨rest, -, rfl⟩ := List.mem_map.1 h
    exact .inr (.inr ⟨rest, rfl⟩)
  · rcases List.mem_cons.1 h with rfl | h
    · exact .inl rfl
    · exact .inr (.inl (List.mem_singleton.1 h))

/-- A path inside the directory of a variant is no bare name. -/
theorem inside_ne_of_slash_not_mem {v rest name : String} (h : '/' ∉ name.toList) :
    e.inside v rest ≠ name := fun heq => h (heq ▸ slash_mem_inside v rest)

/-- No target belongs to two variants. -/
theorem Belongs.unique {v w target : String} (hv : v ∈ variantNames) (hw : w ∈ variantNames)
    (hbv : e.Belongs v target) (hbw : e.Belongs w target) : v = w := by
  rcases hbv with rfl | rfl | ⟨r, rfl⟩
  · rcases hbw with h | h | ⟨q, h⟩
    · exact h
    · exact absurd (h ▸ hv) (runTarget_not_mem_variantNames hw)
    · exact absurd h.symm (inside_ne_of_slash_not_mem (slash_not_mem_of_mem_variantNames hv))
  · rcases hbw with h | h | ⟨q, h⟩
    · exact absurd (h ▸ hw) (runTarget_not_mem_variantNames hv)
    · exact runTarget_inj h
    · exact absurd h.symm (inside_ne_of_slash_not_mem (slash_not_mem_runTarget hv))
  · rcases hbw with h | h | ⟨q, h⟩
    · exact absurd h (inside_ne_of_slash_not_mem (slash_not_mem_of_mem_variantNames hw))
    · exact absurd h (inside_ne_of_slash_not_mem (slash_not_mem_runTarget hw))
    · exact ((inside_inj hv hw).1 h).1

/-- The targets that run several variants belong to none. -/
theorem Belongs.not_aggregate {v target : String} (hv : v ∈ variantNames)
    (hb : e.Belongs v target) : target ∉ aggregateNames := by
  rcases hb with rfl | rfl | ⟨r, rfl⟩
  · exact (not_mem_aggregateNames hv).1
  · exact (not_mem_aggregateNames hv).2
  · have all : ∀ name ∈ aggregateNames, '/' ∉ name.toList := by decide
    exact fun hmem => all _ hmem (slash_mem_inside v r)

/-! ## When the targets differ -/

/-- The stems of the sources that are compiled, and the stem of the generated file if there is one:
what the objects of a variant are named after. -/
def stems (e : Emitter) (sources : List Source) : List String :=
  (sources.filter e.compilable).map (·.stem) ++
    if e.baseline.manualRegistration then [registrationStem] else []

variable (e) in
/-- The object of a stem, inside the directory of a variant. -/
def object (stem : String) : String := "objs/" ++ (stem ++ e.toolchain.objectExtension)

theorem object_inj {s t : String} : e.object s = e.object t ↔ s = t := by
  unfold object
  rw [String.append_right_inj, String.append_left_inj]

/-- An object is no path that starts with another letter than `o`. -/
theorem object_ne {s path : String} (h : path.toList.head? ≠ some 'o') : e.object s ≠ path := by
  rintro rfl
  simp [object] at h

theorem object_ne_generated (s : String) : e.object s ≠ registrationStem ++ ".c" :=
  object_ne (by decide)

theorem object_ne_runner (s : String) : e.object s ≠ "runner" ++ e.toolchain.exeExtension :=
  object_ne (by simp)

theorem generated_ne_runner : registrationStem ++ ".c" ≠ "runner" ++ e.toolchain.exeExtension := by
  intro h
  have htail := congrArg (fun path => path.toList.tail.head?) h
  simp [registrationStem] at htail

/-- Inside the directory of a variant, targets differ if the stems that objects are named after do. -/
theorem nodup_below_iff {sources : List Source} :
    (e.below sources).Nodup ↔ (e.stems sources).Nodup := by
  have hmap : (sources.filter e.compilable).map
      (fun s => "objs/" ++ (s.stem ++ e.toolchain.objectExtension)) =
        ((sources.filter e.compilable).map (·.stem)).map e.object := by
    rw [List.map_map]
    rfl
  unfold below stems
  rw [hmap]
  generalize (sources.filter e.compilable).map (·.stem) = stems
  have hnodup : (stems.map e.object).Nodup ↔ stems.Nodup :=
    List.nodup_map_iff fun s t h => object_inj.1 h
  have hobj : "objs/" ++ (registrationStem ++ e.toolchain.objectExtension) =
      e.object registrationStem := rfl
  cases e.baseline.manualRegistration with
  | false =>
    simp [List.nodup_append, hnodup, object_ne_runner]
  | true =>
    simp [List.nodup_append, hnodup, hobj, object_ne_runner, object_ne_generated, object_inj,
      generated_ne_runner, (object_ne_generated _).symm]

/-- The targets of a variant differ if the stems that objects are named after do. -/
theorem nodup_targets_variantEdges_iff {sources : List Source} {v : Variant}
    (hv : v.name ∈ variantNames) :
    ((e.variantEdges sources v).map Edge.target).Nodup ↔ (e.stems sources).Nodup := by
  have hbare : [v.name, runTarget v.name].Nodup := by
    have hne : v.name ≠ runTarget v.name := fun h => runTarget_not_mem_variantNames hv (h ▸ hv)
    simpa using hne
  have hapart : ∀ a ∈ (e.below sources).map (e.inside v.name), ∀ b ∈ [v.name, runTarget v.name],
      a ≠ b := by
    intro a ha b hb
    obtain ⟨rest, -, rfl⟩ := List.mem_map.1 ha
    rcases List.mem_cons.1 hb with rfl | hb
    · exact inside_ne_of_slash_not_mem (slash_not_mem_of_mem_variantNames hv)
    · rw [List.mem_singleton.1 hb]
      exact inside_ne_of_slash_not_mem (slash_not_mem_runTarget hv)
  rw [targets_variantEdges, List.nodup_append,
    List.nodup_map_iff fun r q h => ((inside_inj hv hv).1 h).2, nodup_below_iff]
  exact ⟨fun h => h.1, fun h => ⟨h, hbare, hapart⟩⟩

theorem targets_aggregateEdges (variants : VariantSet) :
    (e.aggregateEdges variants).map Edge.target =
      (if variants.contains defaultVariant then [defaultTarget] else []) ++
        [allTarget, moreTarget] := by
  unfold aggregateEdges
  split <;> rfl

theorem mem_aggregateNames_of_mem {variants : VariantSet} {target : String}
    (h : target ∈ (e.aggregateEdges variants).map Edge.target) : target ∈ aggregateNames := by
  rw [targets_aggregateEdges] at h
  unfold aggregateNames
  split at h
  · exact h
  · exact List.mem_cons_of_mem _ h

theorem nodup_targets_aggregateEdges (variants : VariantSet) :
    ((e.aggregateEdges variants).map Edge.target).Nodup := by
  rw [targets_aggregateEdges]
  split <;> decide

theorem name_mem_variantNames {variants : VariantSet} (hnames : MatrixNames variants) {v : Variant}
    (hv : v ∈ variants.toList) : v.name ∈ variantNames :=
  hnames.known _ (hnames.own ▸ List.mem_map_of_mem hv)

theorem targets_allEdges (variants : VariantSet) (sources : List Source) :
    (e.allEdges variants sources).map Edge.target =
      variants.toList.flatMap (fun v => (e.variantEdges sources v).map Edge.target) ++
        (e.aggregateEdges variants).map Edge.target := by
  rw [allEdges, List.map_append, List.map_flatMap]

/-- The targets of the whole graph differ if the stems that objects are named after do. -/
theorem nodup_targets_iff {variants : VariantSet} (hnames : MatrixNames variants)
    {sources : List Source} :
    ((e.allEdges variants sources).map Edge.target).Nodup ↔ (e.stems sources).Nodup := by
  rw [targets_allEdges, List.nodup_append, List.nodup_flatMap]
  constructor
  · rintro ⟨⟨heach, -⟩, -⟩
    obtain ⟨v, hv, -⟩ := List.mem_map.1 (hnames.own ▸ hnames.default)
    exact (nodup_targets_variantEdges_iff (name_mem_variantNames hnames hv)).1 (heach v hv)
  · intro hstems
    refine ⟨⟨fun v hv => ?_, ?_⟩, nodup_targets_aggregateEdges variants, ?_⟩
    · exact (nodup_targets_variantEdges_iff (name_mem_variantNames hnames hv)).2 hstems
    · have hdiffer : variants.toList.Pairwise fun v w => v.name ≠ w.name := by
        rw [← List.pairwise_map, ← List.nodup_iff_pairwise_ne, hnames.own]
        exact variants.nodup_names
      refine hdiffer.imp_of_mem ?_
      intro v w hv hw hne target htv htw
      exact hne ((belongs_of_mem_targets htv).unique (name_mem_variantNames hnames hv)
        (name_mem_variantNames hnames hw) (belongs_of_mem_targets htw))
    · intro a ha b hb hab
      obtain ⟨v, hv, hav⟩ := List.mem_flatMap.1 ha
      exact (belongs_of_mem_targets hav).not_aggregate (name_mem_variantNames hnames hv)
        (hab ▸ mem_aggregateNames_of_mem hb)

end Emitter

end BuildMatrix
