import BuildMatrix.Variant.Matrix
import BuildMatrix.Proofs.SortedMap

/-!
# The names of variants

A set holds each variant under its own name, so the names of its variants are its
keys (`map_name_toList_ofList`) and differ from each other (`nodup_names`).

Whatever a compiler accepts, the matrix names its variants after a fixed list of
families (`familyNames`), one name for each configuration, and it always holds the
debug variant of the family `default`.  What is said of targets needs no more of
the names than a few facts that are decided for the whole list at once, and that they are
made of letters, digits and two signs (`not_mem_of_mem_variantNames`).
-/

namespace BuildMatrix

/-! ## Sets -/

namespace VariantSet

theorem byName_ofList (l : List Variant) :
    (ofList l).byName = SortedMap.ofList (l.map fun v => (v.name, v)) := by
  have step : ∀ vs : VariantSet, (l.foldl insert vs).byName =
      (l.map fun v => (v.name, v)).foldl (fun m e => m.insert e.1 e.2) vs.byName := by
    induction l with
    | nil => exact fun _ => rfl
    | cons v l ih => exact fun vs => ih (vs.insert v)
  exact step empty

/-- Every variant of a set is one of the list, under its own name. -/
theorem mem_entries_ofList {l : List Variant} {name : String} {v : Variant}
    (h : (name, v) ∈ (ofList l).byName.entries) : v ∈ l ∧ v.name = name := by
  rw [SortedMap.mem_entries_iff, byName_ofList] at h
  obtain ⟨w, hw, heq⟩ := List.mem_map.1 (SortedMap.mem_of_get?_ofList h)
  injection heq with hname hv
  subst hv
  exact ⟨hw, hname⟩

/-- The names of the variants are the keys of the set. -/
theorem map_name_toList_ofList (l : List Variant) :
    (ofList l).toList.map (·.name) = (ofList l).names := by
  unfold toList names SortedMap.values SortedMap.keys
  rw [List.map_map]
  refine List.map_congr_left ?_
  rintro ⟨name, v⟩ hmem
  exact (mem_entries_ofList hmem).2

theorem nodup_names (vs : VariantSet) : vs.names.Nodup := vs.byName.nodup_keys

theorem contains_iff_mem_names {vs : VariantSet} {name : String} :
    vs.contains name = true ↔ name ∈ vs.names := SortedMap.mem_keys_iff.symm

theorem contains_ofList {l : List Variant} {name : String} :
    (ofList l).contains name = true ↔ ∃ v ∈ l, v.name = name := by
  unfold contains
  rw [byName_ofList, SortedMap.contains_ofList, List.map_map, List.mem_map]
  rfl

end VariantSet

/-! ## Families -/

/-- The families that the matrix can have. -/
def familyNames : List String :=
  ["default", "lto", "c++", "c++17", "c++-nounwind", "c++-clr", "gnu89", "c11", "c99", "c11-c++17",
   "gnu++11", "c++17-noexcept", "jemalloc", "valgrind"]

/-- The names that variants of these families have. -/
def variantNames : List String :=
  familyNames.flatMap fun family => Configuration.all.map (variantName family)

/-- The characters that names are made of. -/
def nameLetters : List Char := "abcdefghijklmnopqrstuvwxyz0123456789+-".toList

theorem not_mem_of_mem_variantNames {name : String} {c : Char} (h : name ∈ variantNames)
    (hc : c ∉ nameLetters) : c ∉ name.toList := by
  have families : ∀ family ∈ familyNames, family.toList.all (nameLetters.contains ·) = true := by
    decide
  have rest : ∀ c : Configuration, ("-" ++ c.name).toList.all (nameLetters.contains ·) = true := by
    intro c
    cases c <;> decide
  obtain ⟨family, hfamily, hname⟩ := List.mem_flatMap.1 h
  obtain ⟨configuration, -, rfl⟩ := List.mem_map.1 hname
  rw [variantName, String.append_assoc, String.toList_append, List.mem_append]
  rintro (hmem | hmem)
  · exact hc (by simpa using List.all_eq_true.1 (families family hfamily) c hmem)
  · exact hc (by simpa using List.all_eq_true.1 (rest configuration) c hmem)

/-- All variants of a list belong to the families. -/
def FromFamilies (l : List Variant) : Prop := ∀ v ∈ l, v.name ∈ variantNames

namespace FromFamilies

theorem nil : FromFamilies [] := fun _ h => by cases h

theorem append {l m : List Variant} (hl : FromFamilies l) (hm : FromFamilies m) :
    FromFamilies (l ++ m) := by
  intro v hv
  rcases List.mem_append.1 hv with hv | hv
  · exact hl v hv
  · exact hm v hv

/-- A family that is there on a condition. -/
theorem ite {c : Prop} [Decidable c] {l : List Variant} (hl : FromFamilies l) :
    FromFamilies (if c then l else []) := by
  split
  · exact hl
  · exact nil

theorem variantName_mem {family : String} (h : family ∈ familyNames) (c : Configuration) :
    variantName family c ∈ variantNames :=
  List.mem_flatMap.2 ⟨family, h, List.mem_map_of_mem (by cases c <;> decide)⟩

theorem pair (f : Flavour) (b : Baseline) {family : String} (h : family ∈ familyNames) :
    FromFamilies (f.pair b family) := by
  intro v hv
  obtain ⟨c, -, rfl⟩ := List.mem_map.1 hv
  exact variantName_mem h c

theorem ltoPair (b : Baseline) : FromFamilies (ltoPair b) := by
  intro v hv
  obtain ⟨c, -, rfl⟩ := List.mem_map.1 hv
  exact variantName_mem (by decide) c

theorem jemallocFamily (tc : Toolchain) (b : Baseline) (host : Host) (settings : Settings) :
    FromFamilies (jemallocFamily tc b host settings) := ite (pair _ _ (by decide))

theorem valgrindFamily (b : Baseline) (host : Host) (settings : Settings) :
    FromFamilies (valgrindFamily b host settings) := by
  refine ite fun v hv => ?_
  rw [List.mem_singleton.1 hv]
  exact variantName_mem (by decide) .debug

variable (verdict : FlagSet → Bool)

theorem msvcFamilies (b : Baseline) : FromFamilies ((msvcFamilies b).answer verdict) := by
  simp only [BuildMatrix.msvcFamilies, Inquiry.answer_bind, Inquiry.answer_check,
    Inquiry.answer_pure]
  exact ((((pair _ _ (by decide)).append (pair _ _ (by decide))).append
    (ite (pair _ _ (by decide)))).append (pair _ _ (by decide))).append
    (ite (pair _ _ (by decide)))

theorem gnuCxxFamilies (b : Baseline) (hasC11 : Bool) :
    FromFamilies ((gnuCxxFamilies b hasC11).answer verdict) := by
  simp only [BuildMatrix.gnuCxxFamilies, Inquiry.answer_bind, Inquiry.answer_check,
    Inquiry.answer_pure]
  exact (((ite (pair _ _ (by decide))).append (pair _ _ (by decide))).append
    (ite (pair _ _ (by decide)))).append (ite (pair _ _ (by decide)))

theorem gnuFamilies (b : Baseline) : FromFamilies ((gnuFamilies b).answer verdict) := by
  simp only [BuildMatrix.gnuFamilies, Inquiry.answer_bind, Inquiry.answer_check,
    Inquiry.answer_pure, Inquiry.answer_ite]
  split
  all_goals
    refine append ((((ite (pair _ _ (by decide))).append (ite (pair _ _ (by decide)))).append
      (ite (pair _ _ (by decide)))).append (ite (ltoPair b))) ?_
  · exact gnuCxxFamilies verdict b _
  · exact nil

end FromFamilies

/-! ## The matrix -/

/-- The variants of the matrix, before they are put into a set: the default pair and further ones of
the families. -/
theorem answer_buildMatrix (tc : Toolchain) (b : Baseline) (host : Host) (settings : Settings)
    (verdict : FlagSet → Bool) :
    ∃ more, FromFamilies more ∧ (buildMatrix tc b host settings).answer verdict =
      VariantSet.ofList ((Flavour.plain b).pair b "default" ++ more) := by
  have hlast := (FromFamilies.jemallocFamily tc b host settings).append
    (.valgrindFamily b host settings)
  have hmsvc := FromFamilies.msvcFamilies verdict b
  have hgnu := FromFamilies.gnuFamilies verdict b
  simp only [buildMatrix, Inquiry.answer_bind, Inquiry.answer_pure, Inquiry.answer_ite,
    List.append_assoc]
  split
  · split
    · exact ⟨_, hmsvc.append (hgnu.append hlast), rfl⟩
    · exact ⟨_, hmsvc.append (FromFamilies.nil.append hlast), rfl⟩
  · split
    · exact ⟨_, FromFamilies.nil.append (hgnu.append hlast), rfl⟩
    · exact ⟨_, FromFamilies.nil.append (FromFamilies.nil.append hlast), rfl⟩

/-- What is needed of the names in the matrix: they are names of the families, and the default
variant is among them. -/
structure MatrixNames (vs : VariantSet) : Prop where
  /-- Each variant goes by its own name, in the order of the names. -/
  own : vs.toList.map (·.name) = vs.names
  /-- The names are those of variants of the families. -/
  known : ∀ name ∈ vs.names, name ∈ variantNames
  /-- The debug variant of the family `default` is there. -/
  default : variantName "default" .debug ∈ vs.names

theorem matrixNames_answer (tc : Toolchain) (b : Baseline) (host : Host) (settings : Settings)
    (verdict : FlagSet → Bool) :
    MatrixNames ((buildMatrix tc b host settings).answer verdict) := by
  obtain ⟨more, hmore, hanswer⟩ := answer_buildMatrix tc b host settings verdict
  have hall : FromFamilies ((Flavour.plain b).pair b "default" ++ more) :=
    (FromFamilies.pair _ _ (by decide)).append hmore
  rw [hanswer]
  refine ⟨VariantSet.map_name_toList_ofList _, fun name hname => ?_, ?_⟩
  · rw [← VariantSet.contains_iff_mem_names, VariantSet.contains_ofList] at hname
    obtain ⟨v, hv, rfl⟩ := hname
    exact hall v hv
  · rw [← VariantSet.contains_iff_mem_names, VariantSet.contains_ofList]
    exact ⟨_, List.mem_append_left _ List.mem_cons_self, rfl⟩

/-- The variants that are planned are those of the matrix, for the baseline that is planned with
them. -/
theorem answer_planVariants (settings : Settings) (env : Environment) (host : Host) (tc : Toolchain)
    (exe : Path) (verdict : FlagSet → Bool) :
    ((planVariants tc exe settings env host).answer verdict).2 =
      (buildMatrix tc ((planVariants tc exe settings env host).answer verdict).1 host
        settings).answer verdict := by
  unfold planVariants
  rw [Inquiry.answer_bind, Inquiry.answer_bind]
  rfl

/-- Both variants of the family `default` are always there. -/
theorem default_mem_names_answer (tc : Toolchain) (b : Baseline) (host : Host) (settings : Settings)
    (verdict : FlagSet → Bool) (c : Configuration) :
    variantName "default" c ∈ ((buildMatrix tc b host settings).answer verdict).names := by
  obtain ⟨more, -, hanswer⟩ := answer_buildMatrix tc b host settings verdict
  rw [hanswer, ← VariantSet.contains_iff_mem_names, VariantSet.contains_ofList]
  refine ⟨(Flavour.plain b).variant b (variantName "default" c) (b.configFlags c), ?_, rfl⟩
  refine List.mem_append_left _ (List.mem_map_of_mem ?_)
  cases c <;> decide

end BuildMatrix
