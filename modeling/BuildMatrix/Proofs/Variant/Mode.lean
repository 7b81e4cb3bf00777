import BuildMatrix.Proofs.Variant.Standards

/-!
# The language of a command line

A compiler of the GNU style takes a source for the language that its name tells, unless the tokens
`-x c++` come before it.  A flag that begins with `-std=` selects the standard.  The two have to agree:
a command line for C that says `-x c++` needs a standard of C++, and one that does not must have none.

Some families of variants compile C as C++, and only these have the tokens in their flags for C.  There
the flags for C++ of the baseline take the place of those for C, with another standard in the place of
their own.  No other flag of a plan is `-x` or selects a standard of C++ for C (`KeepsC`), since all of
them come from a fixed list, search a directory or define a name.  So each variant takes C in one of
two ways (`TakesC`), and together with the standards of the families this says that each variant
compiles each language by one standard (`Prober.plan_one_standard`).
-/

namespace BuildMatrix

open Text

/-- The tokens that make a compiler of the GNU style take a source for C++. -/
def cxxMode : List String := ["-x", "c++"]

/-- Whether a flag selects a standard of C++. -/
def selectsCxx (flag : String) : Bool :=
  beginsWith "-std=c++" flag || beginsWith "-std=gnu++" flag

/-- What is needed of the flags of a variant for its command lines to name one language each. -/
structure OneStandard (b : Baseline) (v : Variant) : Prop where
  /-- One standard is selected for C++. -/
  cxx : (standards (v.compileFlags .cxx).toList).length = 1
  /-- At most one is selected for C. -/
  c : (standards (v.compileFlags .c).toList).length ≤ 1
  /-- C is taken for C++ exactly if a standard of C++ is selected for it. -/
  mode : cxxMode <:+: (v.compileFlags .c).toList ↔
    ∃ flag ∈ standards (v.compileFlags .c).toList, selectsCxx flag = true
  /-- That is done only if C++ can be compiled. -/
  supported : cxxMode <:+: (v.compileFlags .c).toList → b.supportsCxx = true

/-! ## Flags that leave C alone -/

/-- The flag does not take part in taking C for C++. -/
def KeepsC (flag : String) : Prop := flag ≠ "-x" ∧ selectsCxx flag = false

instance (flag : String) : Decidable (KeepsC flag) :=
  inferInstanceAs (Decidable (flag ≠ "-x" ∧ selectsCxx flag = false))

theorem selectsStandard_of_selectsCxx {flag : String} (h : selectsCxx flag = true) :
    selectsStandard flag = true := by
  rw [selectsCxx, Bool.or_eq_true, beginsWith_iff, beginsWith_iff] at h
  rw [selectsStandard, beginsWith_iff]
  rcases h with h | h
  · exact List.IsPrefix.trans (by decide) h
  · exact List.IsPrefix.trans (by decide) h

theorem GnuFlag.keepsC {flag : String} (h : GnuFlag flag) : KeepsC flag := by
  have fixed : ∀ flag ∈ gnuFlags, flag ≠ "-x" := by decide
  constructor
  · cases h with
    | fixed mem => exact fixed _ mem
    | searches dir => exact fun heq => by simpa using congrArg String.toList heq
    | defines name => exact fun heq => by simpa using congrArg String.toList heq
  · by_contra hcxx
    have hselects := selectsStandard_of_selectsCxx (Bool.not_eq_false _ ▸ hcxx)
    rw [h.selectsStandard] at hselects
    cases hselects

/-- All flags of a list leave C alone. -/
def Keeping (flags : List String) : Prop := ∀ flag ∈ flags, KeepsC flag

instance (flags : List String) : Decidable (Keeping flags) :=
  inferInstanceAs (Decidable (∀ flag ∈ flags, KeepsC flag))

theorem Keeping.append {l m : List String} (hl : Keeping l) (hm : Keeping m) : Keeping (l ++ m) :=
  List.forall_mem_append.2 ⟨hl, hm⟩

theorem GnuFlags.keeping {flags : List String} (h : GnuFlags flags) : Keeping flags :=
  fun flag hflag => (h flag hflag).keepsC

/-! ## Two ways to take C -/

/-- The command line for C of a variant, put together. -/
theorem toList_compileFlags_c (v : Variant) : (v.compileFlags .c).toList =
    v.cppFlags ++ (v.cFlags ++ (v.overrides ++ ([] ++ (v.configFlags ++ [])))) := rfl

/-- How a variant takes C. -/
inductive TakesC (b : Baseline) (v : Variant) : Prop where
  /-- No flag does anything about it. -/
  | asC (keeping : Keeping (v.compileFlags .c).toList)
  /-- The flags for C select C++ and a standard of it, and the compiler does C++. -/
  | asCxx (mode : cxxMode <:+: v.cFlags) (standard : ∃ flag ∈ v.cFlags, selectsCxx flag = true)
      (supported : b.supportsCxx = true)

/-- Either way the tokens for C++ and a standard of it come together. -/
theorem TakesC.mode {b : Baseline} {v : Variant} (h : TakesC b v) :
    (cxxMode <:+: (v.compileFlags .c).toList ↔
      ∃ flag ∈ standards (v.compileFlags .c).toList, selectsCxx flag = true) ∧
    (cxxMode <:+: (v.compileFlags .c).toList → b.supportsCxx = true) := by
  cases h with
  | asC keeping =>
    have unmoded : ¬ cxxMode <:+: (v.compileFlags .c).toList := fun hmode =>
      (keeping "-x" (hmode.subset List.mem_cons_self)).1 rfl
    refine ⟨iff_of_false unmoded ?_, fun hmode => absurd hmode unmoded⟩
    rintro ⟨flag, hflag, hcxx⟩
    rw [(keeping flag (List.filter_subset_self _ hflag)).2] at hcxx
    cases hcxx
  | asCxx mode standard supported =>
    have hsub : v.cFlags <:+: (v.compileFlags .c).toList := by
      rw [toList_compileFlags_c, ← List.append_assoc]
      exact List.infix_append _ _ _
    obtain ⟨flag, hflag, hcxx⟩ := standard
    refine ⟨iff_of_true (mode.trans hsub) ⟨flag, ?_, hcxx⟩, fun _ => supported⟩
    exact List.mem_filter.2 ⟨hsub.subset hflag, selectsStandard_of_selectsCxx hcxx⟩

/-- Each variant of a list takes C in one of the two ways. -/
def TakingC (b : Baseline) (l : List Variant) : Prop := ∀ v ∈ l, TakesC b v

namespace TakingC

variable {b : Baseline} {l m : List Variant} {f : Flavour}

theorem nil : TakingC b [] := fun _ h => by cases h

theorem append (hl : TakingC b l) (hm : TakingC b m) : TakingC b (l ++ m) :=
  List.forall_mem_append.2 ⟨hl, hm⟩

theorem ite (hl : TakingC b l) (c : Prop) [Decidable c] : TakingC b (if c then l else []) := by
  split
  · exact hl
  · exact nil

/-- A variant whose own flags leave C alone. -/
theorem variant (base : GnuBaseline b) {v : Variant} (cpp : v.cppFlags = b.cppFlags)
    (c : Keeping v.cFlags) (overrides : Keeping v.overrides) (config : Keeping v.configFlags) :
    TakesC b v := by
  refine .asC ?_
  rw [toList_compileFlags_c, cpp, List.nil_append, List.append_nil]
  exact base.cpp.keeping.append (c.append (overrides.append config))

theorem pair (base : GnuBaseline b) {family : String} (c : Keeping f.cFlags)
    (overrides : Keeping f.overrides) : TakingC b (f.pair b family) := by
  intro v hv
  obtain ⟨config, -, rfl⟩ := List.mem_map.1 hv
  exact variant base rfl c overrides (base.config config).keeping

/-- A pair that compiles C with the flags for C++, with other flags for their standard. -/
theorem pair_allCxx (base : GnuBaseline b) (supported : b.supportsCxx = true) {family : String}
    {flags : List String} (standard : ∃ flag ∈ flags, selectsCxx flag = true) :
    TakingC b ((f.allCxx (b.cxxFlags.filter (· ≠ "-std=c++11") ++ flags)).pair b family) := by
  obtain ⟨rest, hcxx, -⟩ := base.cxx
  obtain ⟨flag, hflag, hselects⟩ := standard
  intro v hv
  obtain ⟨config, -, rfl⟩ := List.mem_map.1 hv
  refine .asCxx ?_ ⟨flag, List.mem_append_right _ hflag, hselects⟩ supported
  have hkept : b.cxxFlags.filter (· ≠ "-std=c++11") =
      cxxMode ++ (["-Wmissing-declarations"] ++ rest.filter (· ≠ "-std=c++11")) := by
    rw [hcxx, List.filter_append]
    rfl
  show cxxMode <:+: b.cxxFlags.filter (· ≠ "-std=c++11") ++ flags
  rw [hkept, List.append_assoc]
  exact (List.prefix_append _ _).isInfix

theorem ltoPair (base : GnuBaseline b) : TakingC b (ltoPair b) := by
  have config : Keeping (b.release.map fun flag => if flag = "-O2" then "-O3" else flag) := by
    refine List.forall_mem_map.2 fun flag hflag => ?_
    split
    · decide
    · exact (base.config .release).keeping flag hflag
  have overrides : Keeping ["-flto"] := by decide
  intro v hv
  obtain ⟨c, -, rfl⟩ := List.mem_map.1 hv
  refine variant base rfl base.c.keeping overrides ?_
  cases c with
  | debug => exact (base.config .debug).keeping
  | release => exact config

theorem valgrindFamily (base : GnuBaseline b) (host : Host) (settings : Settings) :
    TakingC b (valgrindFamily b host settings) := by
  refine ite ?_ _
  intro v hv
  rw [List.mem_singleton.1 hv]
  exact variant base rfl base.c.keeping (List.forall_mem_nil _) (base.config .debug).keeping

variable (accepts : FlagSet → Bool)

theorem gnuCxxFamilies (base : GnuBaseline b) (supported : b.supportsCxx = true) (hasC11 : Bool) :
    TakingC b ((gnuCxxFamilies b hasC11).answer accepts) := by
  simp only [BuildMatrix.gnuCxxFamilies, Inquiry.answer_bind, Inquiry.answer_check,
    Inquiry.answer_pure]
  have c11 : Keeping (b.cFlags ++ ["-std=c11"]) := base.c.keeping.append (by decide)
  have none : Keeping [] := List.forall_mem_nil _
  exact (((ite (pair base c11 none) _).append (pair_allCxx base supported (by decide))).append
    (ite (pair_allCxx base supported (by decide)) _)).append
    (ite (pair_allCxx base supported (by decide)) _)

theorem gnuFamilies (base : GnuBaseline b) : TakingC b ((gnuFamilies b).answer accepts) := by
  have standard : ∀ flags family, Keeping flags →
      TakingC b (((Flavour.plain b).withC flags).pair b family) := fun flags family hflags =>
    pair base (base.c.keeping.append hflags) (show Keeping [] from List.forall_mem_nil _)
  simp only [BuildMatrix.gnuFamilies, Inquiry.answer_bind, Inquiry.answer_check,
    Inquiry.answer_pure, Inquiry.answer_ite]
  have gnu89 := standard ["-std=gnu89", "-Wno-pedantic"] "gnu89" (by decide)
  have c11 := standard ["-std=c11"] "c11" (by decide)
  have c99 := standard ["-std=c99"] "c99" (by decide)
  split
  · next supported =>
    exact ((((ite gnu89 _).append (ite c11 _)).append (ite c99 _)).append
      (ite (ltoPair base) _)).append (gnuCxxFamilies accepts base supported _)
  · exact ((((ite gnu89 _).append (ite c11 _)).append (ite c99 _)).append
      (ite (ltoPair base) _)).append nil

theorem matrixVariants (base : GnuBaseline b) {tc : Toolchain}
    (hmsvc : tc.capabilities.msvcVariants = false) (host : Host) (settings : Settings) :
    TakingC b ((matrixVariants tc b host settings).answer accepts) := by
  have none : Keeping [] := List.forall_mem_nil _
  have default : TakingC b ((Flavour.plain b).pair b "default") := pair base base.c.keeping none
  have jemalloc : TakingC b (jemallocFamily tc b host settings) :=
    ite (pair base base.c.keeping (GnuFlags.define tc _ _).keeping) _
  simp only [BuildMatrix.matrixVariants, hmsvc, Bool.false_eq_true, if_false, Inquiry.answer_bind,
    Inquiry.answer_pure, Inquiry.answer_ite, List.append_nil]
  have valgrind := valgrindFamily base host settings
  split
  · exact ((default.append (gnuFamilies accepts base)).append jemalloc).append valgrind
  · exact (default.append jemalloc).append valgrind

end TakingC

/-! ## Plans -/

theorem length_familyStandards (family : String) :
    (familyStandards family .cxx).length = 1 ∧ (familyStandards family .c).length ≤ 1 := by
  constructor
  · simp only [familyStandards]
    split <;> rfl
  · simp only [familyStandards]
    split <;> simp

/-- Under every assignment of verdicts each variant of the GNU style compiles each language by one
standard. -/
theorem oneStandard_planVariants {tc : Toolchain} (accepts : FlagSet → Bool) (gnu : tc.style = .gnu)
    (exe : Path) (settings : Settings) (env : Environment) (host : Host) {v : Variant}
    (hv : v ∈ ((planVariants tc exe settings env host).answer accepts).2.toList) :
    OneStandard ((planVariants tc exe settings env host).answer accepts).1 v := by
  obtain ⟨family, c, -, hstandards, -⟩ :=
    standards_planVariants accepts exe settings env host gnu hv
  have base : GnuBaseline ((planVariants tc exe settings env host).answer accepts).1 := by
    unfold planVariants
    simp only [Inquiry.answer_bind, Inquiry.answer_pure]
    exact gnuBaseline_answer accepts gnu exe settings env
  rw [answer_planVariants, buildMatrix_eq, Inquiry.answer_bind, Inquiry.answer_pure] at hv
  have takes := TakingC.matrixVariants accepts base (msvcVariants_of_gnu gnu).2 host settings v
    (VariantSet.mem_of_mem_toList_ofList hv)
  obtain ⟨hcxx, hc⟩ := length_familyStandards family
  refine ⟨?_, ?_, takes.mode.1, takes.mode.2⟩
  · rw [hstandards]
    exact hcxx
  · rw [hstandards]
    exact hc

namespace Prober

/-- In a plan for a compiler of the GNU style each variant selects one standard for C++ and at most one
for C, and takes C for C++ exactly if this is a standard of C++, which it is only where C++ can be
compiled.  This holds for every assignment of verdicts and for every run. -/
theorem plan_one_standard (p : Prober) (gnu : p.toolchain.style = .gnu) (settings : Settings)
    (env : Environment) (host : Host) :
    (∀ accepts : FlagSet → Bool,
      ∀ v ∈ ((planVariants p.toolchain p.exe settings env host).answer accepts).2.toList,
        OneStandard ((planVariants p.toolchain p.exe settings env host).answer accepts).1 v) ∧
    ∀ (s s' : Probing) (made : Baseline × VariantSet), p.plan settings env host s = .ok made s' →
      ∀ v ∈ made.2.toList, OneStandard made.1 v := by
  refine ⟨fun accepts v => oneStandard_planVariants accepts gnu _ settings env host,
    fun s s' made plan v hv => ?_⟩
  obtain ⟨checks, carried⟩ := carryOut_eq_ok_iff.1 plan
  obtain ⟨rfl, -⟩ := carried.answer
  exact oneStandard_planVariants _ gnu _ settings env host hv

/-- A GCC that does not know `-std=gnu++11` still gets variants that compile C as C++17. -/
theorem plan_one_standard_of_strict_gcc :
    ∃ (s' : Probing) (made : Baseline × VariantSet), ∃ v ∈ made.2.toList,
      strictGcc.plan {} {} {} strictStart = .ok made s' ∧ OneStandard made.1 v ∧
        v.name = "c++17-debug" ∧ standards (v.compileFlags .c).toList = ["-std=c++17"] ∧
        cxxMode <:+: (v.compileFlags .c).toList := by
  obtain ⟨s', plan, -⟩ := exists_plan_strictGcc
  obtain ⟨v, hv, hname, hflag⟩ : ∃ v ∈ (strictInquiry.answer strictRule).2.toList,
      v.name = "c++17-debug" ∧ standards (v.compileFlags .c).toList = ["-std=c++17"] := by
    decide +kernel
  have one := (plan_one_standard strictGcc rfl {} {} {}).2 _ _ _ plan v hv
  refine ⟨s', _, v, hv, plan, one, hname, hflag, one.mode.2 ⟨"-std=c++17", ?_, by decide⟩⟩
  rw [hflag]
  exact List.mem_cons_self

end Prober

end BuildMatrix
