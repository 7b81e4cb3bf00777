import BuildMatrix.Proofs.Variant.Names
import BuildMatrix.Proofs.Variant.Plan
import Mathlib.Data.List.Flatten

/-!
# Which variants there are

The matrix is made of families, and a family comes with a debug and a release variant.
Which families a compiler gets is said by `Offered`: one constructor for each family,
with the conditions under which it is there.  Only the variant for valgrind comes alone.

The list in which the variants are put into the set is taken apart in the way in which
it is put together.  `Expands` says of a part that it holds the two halves of some
families, each family of a fixed list at most once and in the order of that list.  So the
names in the matrix are those of the families on offer (`Expands.mem_names`), and no name
comes twice, which is why no variant takes the place of an earlier one
(`nodup_matrixVariants`).

`plan_matrix` says this of every plan, whether its verdicts come from the cache or from
the compiler.
-/

namespace BuildMatrix

/-! ## Families on offer -/

section Offers

variable (tc : Toolchain) (b : Baseline) (host : Host) (accepts : FlagSet → Bool)

/-- The families for Visual C++. -/
inductive MsvcOffered : String → Prop
  | lto : MsvcOffered "lto"
  | cxx : MsvcOffered "c++"
  | cxx17 (accepted : accepts (b.cxxFlags ++ ["/std:c++17"]) = true) : MsvcOffered "c++17"
  | noUnwind : MsvcOffered "c++-nounwind"
  | clr (accepted : accepts (b.cxxFlags.filter (· ≠ "/EHsc") ++ ["/clr"]) = true) :
      MsvcOffered "c++-clr"

/-- The families of the GNU style that compile C++. -/
inductive GnuCxxOffered : String → Prop
  | gnu11 : GnuCxxOffered "gnu++11"
  | cxx17 (accepted : accepts ["-x", "c++", "-std=c++17"] = true) : GnuCxxOffered "c++17"
  | c11Cxx17 (accepted : accepts ["-x", "c++", "-std=c++17"] = true)
      (c11 : accepts ["-std=c11"] = true) : GnuCxxOffered "c11-c++17"
  | noExcept (accepted : accepts ["-x", "c++", "-std=c++17", "-fno-exceptions"] = true) :
      GnuCxxOffered "c++17-noexcept"

/-- The families of the GNU style. -/
inductive GnuOffered : String → Prop
  | gnu89 (accepted : accepts ["-std=gnu89", "-Wno-pedantic"] = true) : GnuOffered "gnu89"
  | c11 (accepted : accepts ["-std=c11"] = true) : GnuOffered "c11"
  | c99 (accepted : accepts ["-std=c99"] = true) : GnuOffered "c99"
  | lto (accepted : accepts ["-flto"] = true) : GnuOffered "lto"
  | cxx {family : String} (supported : b.supportsCxx = true)
      (offered : GnuCxxOffered accepts family) : GnuOffered family

/-- The families that come with both their halves, for a baseline and the verdicts of a compiler. -/
inductive Offered : String → Prop
  | default : Offered "default"
  | msvc {family : String} (compiler : tc.identity.family = .msvc)
      (offered : MsvcOffered b accepts family) : Offered family
  | gnu {family : String} (compiler : tc.capabilities.gnuVariants = true)
      (offered : GnuOffered b accepts family) : Offered family
  | jemalloc (there : host.jemalloc = true) : Offered "jemalloc"

end Offers

/-! ## Lists of variants -/

/-- The names of the two halves of a family. -/
def halves (family : String) : List String := Configuration.all.map (variantName family)

theorem mem_halves {family name : String} : name ∈ halves family ↔ ∃ c, name = variantName family c := by
  constructor
  · intro h
    obtain ⟨c, -, rfl⟩ := List.mem_map.1 h
    exact ⟨c, rfl⟩
  · rintro ⟨c, rfl⟩
    exact List.mem_map_of_mem (by cases c <;> decide)

/-- The variants of a list are the halves of the families that satisfy a condition.  These are some of
a fixed list, in its order. -/
def Expands (l : List Variant) (among : List String) (offered : String → Prop) : Prop :=
  ∃ families : List String, l.map (·.name) = families.flatMap halves ∧ families.Sublist among ∧
    ∀ family, family ∈ families ↔ offered family

namespace Expands

variable {l m : List Variant} {among more : List String} {offered other : String → Prop}

theorem nil : Expands [] [] fun _ => False := ⟨[], rfl, .refl _, fun _ => List.mem_nil_iff _⟩

theorem pair (f : Flavour) (b : Baseline) (family : String) :
    Expands (f.pair b family) [family] (· = family) := by
  refine ⟨[family], ?_, .refl _, fun _ => List.mem_singleton⟩
  rw [List.flatMap_singleton, Flavour.pair, List.map_map]
  rfl

theorem ltoPair (b : Baseline) : Expands (ltoPair b) ["lto"] (· = "lto") := by
  refine ⟨["lto"], ?_, .refl _, fun _ => List.mem_singleton⟩
  rw [List.flatMap_singleton, BuildMatrix.ltoPair, List.map_map]
  rfl

theorem append (hl : Expands l among offered) (hm : Expands m more other) :
    Expands (l ++ m) (among ++ more) fun family => offered family ∨ other family := by
  obtain ⟨families, hnames, hsub, hmem⟩ := hl
  obtain ⟨families', hnames', hsub', hmem'⟩ := hm
  refine ⟨families ++ families', ?_, hsub.append hsub', fun family => ?_⟩
  · rw [List.map_append, List.flatMap_append, hnames, hnames']
  · rw [List.mem_append, hmem, hmem']

/-- A part that is there on a condition. -/
theorem ite (hl : Expands l among offered) (c : Prop) [Decidable c] :
    Expands (if c then l else []) among fun family => c ∧ offered family := by
  obtain ⟨families, hnames, hsub, hmem⟩ := hl
  by_cases hc : c
  · refine ⟨families, by rw [if_pos hc, hnames], hsub, fun family => ?_⟩
    simp [hc, hmem]
  · exact ⟨[], by rw [if_neg hc]; rfl, List.nil_sublist _, by simp [hc]⟩

/-- The condition in other words. -/
theorem congr (hl : Expands l among offered) (h : ∀ family, offered family ↔ other family) :
    Expands l among other := by
  obtain ⟨families, hnames, hsub, hmem⟩ := hl
  exact ⟨families, hnames, hsub, fun family => (hmem family).trans (h family)⟩

/-- The names of the variants are the halves of the families on offer. -/
theorem mem_names (hl : Expands l among offered) {name : String} :
    name ∈ l.map (·.name) ↔ ∃ family c, offered family ∧ name = variantName family c := by
  obtain ⟨families, hnames, -, hmem⟩ := hl
  rw [hnames, List.mem_flatMap]
  constructor
  · rintro ⟨family, hfamily, hname⟩
    obtain ⟨c, rfl⟩ := mem_halves.1 hname
    exact ⟨family, c, (hmem family).1 hfamily, rfl⟩
  · rintro ⟨family, c, hfamily, hname⟩
    exact ⟨family, (hmem family).2 hfamily, mem_halves.2 ⟨c, hname⟩⟩

/-- The names stand in the order of the fixed list. -/
theorem sublist_names (hl : Expands l among offered) :
    (l.map (·.name)).Sublist (among.flatMap halves) := by
  obtain ⟨families, hnames, hsub, -⟩ := hl
  rw [hnames]
  exact hsub.flatMap halves

end Expands

/-! ## The parts of the matrix -/

section Parts

variable (tc : Toolchain) (b : Baseline) (host : Host) (settings : Settings)
  (accepts : FlagSet → Bool)

/-- The families that Visual C++ can get, in order. -/
def msvcOrder : List String := ["lto", "c++", "c++17", "c++-nounwind", "c++-clr"]

/-- The families that a compiler of the GNU style can get, in order. -/
def gnuOrder : List String :=
  ["gnu89", "c11", "c99", "lto", "c11-c++17", "gnu++11", "c++17", "c++17-noexcept"]

theorem expands_msvcFamilies :
    Expands ((msvcFamilies b).answer accepts) msvcOrder (MsvcOffered b accepts) := by
  simp only [msvcFamilies, Inquiry.answer_bind, Inquiry.answer_check, Inquiry.answer_pure]
  refine (((((Expands.pair _ b "lto").append (.pair _ b "c++")).append
    ((Expands.pair _ b "c++17").ite _)).append (.pair _ b "c++-nounwind")).append
    ((Expands.pair _ b "c++-clr").ite _)).congr fun family => ⟨?_, ?_⟩
  · rintro ((((rfl | rfl) | ⟨h, rfl⟩) | rfl) | ⟨h, rfl⟩)
    · exact .lto
    · exact .cxx
    · exact .cxx17 h
    · exact .noUnwind
    · exact .clr h
  · rintro (_ | _ | h | _ | h)
    · simp
    · simp
    · simp [h]
    · simp
    · exact .inr ⟨h, rfl⟩

theorem expands_gnuCxxFamilies :
    Expands ((gnuCxxFamilies b (accepts ["-std=c11"])).answer accepts)
      ["c11-c++17", "gnu++11", "c++17", "c++17-noexcept"] (GnuCxxOffered accepts) := by
  simp only [gnuCxxFamilies, Inquiry.answer_bind, Inquiry.answer_check, Inquiry.answer_pure]
  refine (((((Expands.pair _ b "c11-c++17").ite
    (accepts ["-x", "c++", "-std=c++17"] = true ∧ accepts ["-std=c11"] = true)).append
    (.pair _ b "gnu++11")).append ((Expands.pair _ b "c++17").ite _)).append
    ((Expands.pair _ b "c++17-noexcept").ite _)).congr fun family => ⟨?_, ?_⟩
  · rintro (((⟨⟨h, h'⟩, rfl⟩ | rfl) | ⟨h, rfl⟩) | ⟨h, rfl⟩)
    · exact .c11Cxx17 h h'
    · exact .gnu11
    · exact .cxx17 h
    · exact .noExcept h
  · rintro (_ | h | ⟨h, h'⟩ | h)
    · simp
    · simp [h]
    · simp [h, h']
    · simp [h]

theorem expands_gnuFamilies :
    Expands ((gnuFamilies b).answer accepts) gnuOrder (GnuOffered b accepts) := by
  simp only [gnuFamilies, Inquiry.answer_bind, Inquiry.answer_check, Inquiry.answer_pure,
    Inquiry.answer_ite]
  -- the families for C++ come last, with or without what is before them
  have hlast : ∀ before cxx : List Variant,
      (if b.supportsCxx = true then before ++ cxx else before ++ []) =
        before ++ if b.supportsCxx = true then cxx else [] := by
    intro before cxx
    split <;> rfl
  rw [hlast]
  refine ((((((Expands.pair _ b "gnu89").ite _).append ((Expands.pair _ b "c11").ite _)).append
    ((Expands.pair _ b "c99").ite _)).append ((Expands.ltoPair b).ite _)).append
    ((expands_gnuCxxFamilies b accepts).ite (b.supportsCxx = true))).congr fun family => ⟨?_, ?_⟩
  · rintro ((((⟨h, rfl⟩ | ⟨h, rfl⟩) | ⟨h, rfl⟩) | ⟨h, rfl⟩) | ⟨h, h'⟩)
    · exact .gnu89 h
    · exact .c11 h
    · exact .c99 h
    · exact .lto h
    · exact .cxx h h'
  · rintro (h | h | h | h | ⟨h, h'⟩)
    · simp [h]
    · simp [h]
    · simp [h]
    · simp [h]
    · exact .inr ⟨h, h'⟩

/-- The variants of the matrix in the order in which they are put into the set. -/
def matrixVariants : Inquiry (List Variant) := do
  let msvc ← if tc.capabilities.msvcVariants then msvcFamilies b else pure []
  let gnu ← if tc.capabilities.gnuVariants then gnuFamilies b else pure []
  return (Flavour.plain b).pair b "default" ++ msvc ++ gnu ++ jemallocFamily tc b host settings ++
    valgrindFamily b host settings

/-- Inquiries that follow each other can be grouped in any way. -/
theorem Inquiry.bind_assoc {α β γ : Type} (i : Inquiry α) (f : α → Inquiry β) (g : β → Inquiry γ) :
    i >>= f >>= g = i >>= fun a => f a >>= g := by
  induction i with
  | done result => rfl
  | ask flags next ih => exact congrArg (Inquiry.ask flags) (funext ih)

/-- Finding out the matrix is finding out its variants and putting them into a set. -/
theorem buildMatrix_eq :
    buildMatrix tc b host settings =
      matrixVariants tc b host settings >>= fun variants => pure (VariantSet.ofList variants) := by
  unfold buildMatrix matrixVariants
  cases tc.capabilities.msvcVariants
  all_goals cases tc.capabilities.gnuVariants
  all_goals
    simp only [Bool.false_eq_true, if_true, if_false, Inquiry.bind_assoc]
    rfl

theorem map_name_valgrindFamily :
    (valgrindFamily b host settings).map (·.name) =
      if settings.valgrind = true ∧ host.valgrind = true then [variantName "valgrind" .debug]
      else [] := by
  unfold valgrindFamily
  split <;> rfl

/-- The variants but for that of valgrind are the halves of the families on offer.  No compiler gets
families of both styles. -/
theorem exists_expands_matrixVariants :
    ∃ pairs among, (matrixVariants tc b host settings).answer accepts =
        pairs ++ valgrindFamily b host settings ∧
      Expands pairs among (Offered tc b host accepts) ∧
        (among = "default" :: msvcOrder ++ ["jemalloc"] ∨
          among = "default" :: gnuOrder ++ ["jemalloc"]) := by
  have hjemalloc : Expands (jemallocFamily tc b host settings) ["jemalloc"]
      fun family => host.jemalloc = true ∧ family = "jemalloc" := (Expands.pair _ b _).ite _
  have hdefault := Expands.pair (Flavour.plain b) b "default"
  simp only [matrixVariants, Inquiry.answer_bind, Inquiry.answer_pure, Inquiry.answer_ite]
  by_cases hmsvc : tc.identity.family = .msvc
  · have hcaps : tc.capabilities = Family.capabilities .msvc := congrArg _ hmsvc
    have hgnu : ¬ tc.capabilities.gnuVariants = true := by rw [hcaps]; decide
    rw [if_pos (by rw [hcaps]; decide), if_neg hgnu, List.append_nil]
    refine ⟨_, _, rfl, ((hdefault.append (expands_msvcFamilies b accepts)).append hjemalloc).congr
      fun family => ⟨?_, ?_⟩, .inl rfl⟩
    · rintro ((rfl | h) | ⟨h, rfl⟩)
      · exact .default
      · exact .msvc hmsvc h
      · exact .jemalloc h
    · rintro (_ | ⟨-, h⟩ | ⟨h, -⟩ | h)
      · exact .inl (.inl rfl)
      · exact .inl (.inr h)
      · exact absurd h hgnu
      · exact .inr ⟨h, rfl⟩
  · rw [if_neg (by simpa [Toolchain.capabilities, Family.capabilities] using hmsvc)]
    have hgnu := (expands_gnuFamilies b accepts).ite (tc.capabilities.gnuVariants = true)
    refine ⟨_, _, ?_, ((hdefault.append hgnu).append hjemalloc).congr
      fun family => ⟨?_, ?_⟩, .inr rfl⟩
    · split <;> simp only [List.append_nil]
    · rintro ((rfl | ⟨h, h'⟩) | ⟨h, rfl⟩)
      · exact .default
      · exact .gnu h h'
      · exact .jemalloc h
    · rintro (_ | ⟨h, -⟩ | ⟨h, h'⟩ | h)
      · exact .inl (.inl rfl)
      · exact absurd h hmsvc
      · exact .inl (.inr ⟨h, h'⟩)
      · exact .inr ⟨h, rfl⟩

theorem nodup_matrixVariants :
    (((matrixVariants tc b host settings).answer accepts).map (·.name)).Nodup := by
  obtain ⟨pairs, among, hanswer, hpairs, horder⟩ :=
    exists_expands_matrixVariants tc b host settings accepts
  have hvalgrind : ((valgrindFamily b host settings).map (·.name)).Sublist
      [variantName "valgrind" .debug] := by
    rw [map_name_valgrindFamily]
    split
    · exact .refl _
    · exact List.nil_sublist _
  rw [hanswer, List.map_append]
  refine (hpairs.sublist_names.append hvalgrind).nodup ?_
  rcases horder with rfl | rfl
  · decide
  · decide

theorem mem_names_matrixVariants {name : String} :
    name ∈ ((matrixVariants tc b host settings).answer accepts).map (·.name) ↔
      (∃ family c, Offered tc b host accepts family ∧ name = variantName family c) ∨
        name = variantName "valgrind" .debug ∧ settings.valgrind = true ∧ host.valgrind = true := by
  obtain ⟨pairs, among, hanswer, hpairs, -⟩ :=
    exists_expands_matrixVariants tc b host settings accepts
  rw [hanswer, List.map_append, List.mem_append, hpairs.mem_names, map_name_valgrindFamily]
  simp [and_comm]

end Parts

/-! ## The matrix -/

/-- The matrix for a baseline and the verdicts of a compiler. -/
structure IsMatrix (tc : Toolchain) (b : Baseline) (host : Host) (settings : Settings)
    (accepts : FlagSet → Bool) (vs : VariantSet) : Prop where
  /-- The names are those of both halves of the families on offer, and that of the variant for
  valgrind, if it is wanted and there. -/
  names : ∀ name, name ∈ vs.names ↔
    (∃ family c, Offered tc b host accepts family ∧ name = variantName family c) ∨
      name = variantName "valgrind" .debug ∧ settings.valgrind = true ∧ host.valgrind = true
  /-- The variants were put into the set one after the other. -/
  filled : vs = VariantSet.ofList ((matrixVariants tc b host settings).answer accepts)
  /-- None of them took the place of an earlier one. -/
  fresh : ∀ before v after, (matrixVariants tc b host settings).answer accepts = before ++ v :: after →
    (VariantSet.ofList before).contains v.name = false

theorem isMatrix_answer (tc : Toolchain) (b : Baseline) (host : Host) (settings : Settings)
    (accepts : FlagSet → Bool) :
    IsMatrix tc b host settings accepts ((buildMatrix tc b host settings).answer accepts) := by
  have hfilled : (buildMatrix tc b host settings).answer accepts =
      VariantSet.ofList ((matrixVariants tc b host settings).answer accepts) := by
    rw [buildMatrix_eq, Inquiry.answer_bind, Inquiry.answer_pure]
  refine ⟨fun name => ?_, hfilled, fun before v after hsplit => ?_⟩
  · rw [hfilled, ← VariantSet.contains_iff_mem_names, VariantSet.contains_ofList,
      ← mem_names_matrixVariants, List.mem_map]
  · have hnodup := nodup_matrixVariants tc b host settings accepts
    rw [hsplit, List.map_append, List.map_cons, List.nodup_append] at hnodup
    rw [← Bool.not_eq_true, VariantSet.contains_ofList]
    rintro ⟨earlier, hearlier, hname⟩
    exact hnodup.2.2 _ (List.mem_map_of_mem hearlier) _ List.mem_cons_self hname

namespace Prober

/-- The variants of a plan are the matrix of its baseline.  This holds for every assignment of verdicts,
and so for every run: a flag set is accepted if the cache of the run says so in the end, and there
stand all verdicts of the run, those that were there before and those of the compiler. -/
theorem plan_matrix (p : Prober) (settings : Settings) (env : Environment) (host : Host) :
    (∀ accepts : FlagSet → Bool, ∀ made,
      (planVariants p.toolchain p.exe settings env host).answer accepts = made →
        IsMatrix p.toolchain made.1 host settings accepts made.2) ∧
    ∀ (s s' : Probing) (made : Baseline × VariantSet), p.plan settings env host s = .ok made s' →
      IsMatrix p.toolchain made.1 host settings s'.cache.verdict made.2 ∧
        ∀ flags ∈ p.planQuestions settings env host s,
          s'.cache.get? flags = some (s'.cache.verdict flags) := by
  have hanswer : ∀ accepts : FlagSet → Bool, ∀ made,
      (planVariants p.toolchain p.exe settings env host).answer accepts = made →
        IsMatrix p.toolchain made.1 host settings accepts made.2 := by
    rintro accepts _ rfl
    rw [answer_planVariants]
    exact isMatrix_answer _ _ _ _ _
  refine ⟨hanswer, fun s s' made plan => ?_⟩
  obtain ⟨checks, carried⟩ := carryOut_eq_ok_iff.1 plan
  obtain ⟨hmade, hknown⟩ := carried.answer
  refine ⟨hanswer _ _ hmade.symm, fun flags hflags => ?_⟩
  rw [planQuestions, carried.asked_eq] at hflags
  exact hknown flags hflags

/-- A prober of GCC. -/
def ofGcc (runner : Runner) : Prober := ⟨⟨⟨.gcc, "gcc", ⟨"gcc"⟩⟩⟩, runner, ⟨"b"⟩⟩

/-- From a GCC that accepts everything a plan gets all families of the GNU style, and none of Visual
C++. -/
theorem plan_matrix_of_lenient_gcc :
    ∃ (s' : Probing) (made : Baseline × VariantSet),
      (ofGcc lenientRunner).plan {} {} {} (inBareProject (Cache.empty "GCC:gcc")) = .ok made s' ∧
        IsMatrix (ofGcc lenientRunner).toolchain made.1 {} {} s'.cache.verdict made.2 ∧
        (∀ c, variantName "c11-c++17" c ∈ made.2.names) ∧
        variantName "c++-clr" .debug ∉ made.2.names := by
  obtain ⟨checks, made, s', carried, -⟩ := exists_prepared (p := ofGcc lenientRunner)
    (planVariants (ofGcc lenientRunner).toolchain (ofGcc lenientRunner).exe {} {} {})
    (s := inBareProject (Cache.empty "GCC:gcc"))
    room_bareProject (clear_bareProject List.mem_cons_self)
  have plan := carryOut_eq_ok_iff.2 ⟨checks, carried⟩
  have steady : (ofGcc lenientRunner).Steady fun _ => true := fun _ _ => rfl
  have hmade := (carried.steady steady (.empty _)).2
  have matrix := (plan_matrix (ofGcc lenientRunner) {} {} {}).2 _ _ _ plan
  have names := ((plan_matrix (ofGcc lenientRunner) {} {} {}).1 _ _ hmade.symm).names
  have hcxx : made.1.supportsCxx = true := by
    rw [hmade]
    rfl
  refine ⟨s', made, plan, matrix.1, fun c => ?_, ?_⟩
  · exact (names _).2 (.inl ⟨_, c, .gnu rfl (.cxx hcxx (.c11Cxx17 rfl rfl)), rfl⟩)
  · rw [hmade]
    decide +kernel

end Prober

end BuildMatrix
