import BuildMatrix.Proofs.Variant.Provenance

/-!
# Language standards

A flag that begins with `-std=` selects a language standard.  `standards` are the flags of a list that
do, and `familyStandards` says which of them the variants of a family have for a language.

In the GNU style the baseline selects C++11 for C++ and nothing for C, whatever the compiler accepts
and whatever directories and names the settings have (`baselineStandards_answer`): what comes from the
settings begins with `-I` or `-D`.  Each family then adds to these lists or replaces them, and in the
composed command line of a variant stand exactly the standards of its family
(`standards_planVariants`).

A family is on offer if questions about its flags were accepted.  `Warranted` says that this is so for
a standard, and `Prober.plan_standards` that it is so for all standards of a plan but two: that of the
baseline, and that of the family `gnu++11`, which comes with every compiler that does C++.
-/

namespace BuildMatrix

open Text

/-! ## Flags that select a standard -/

/-- Whether a flag selects a language standard. -/
def selectsStandard (flag : String) : Bool := beginsWith "-std=" flag

/-- The flags of a list that select a language standard. -/
def standards (flags : List String) : List String := flags.filter selectsStandard

@[simp] theorem standards_append (l m : List String) :
    standards (l ++ m) = standards l ++ standards m := List.filter_append ..

/-- Flags none of which selects a standard. -/
def Silent (flags : List String) : Prop := ∀ flag ∈ flags, selectsStandard flag = false

namespace Silent

variable {l : List String}

theorem standards (h : Silent l) : standards l = [] := by
  rw [BuildMatrix.standards, List.filter_eq_nil_iff]
  intro flag hflag
  rw [h flag hflag]
  decide

theorem nil : Silent [] := fun _ h => by cases h

end Silent

instance (l : List String) : Decidable (Silent l) :=
  inferInstanceAs (Decidable (∀ flag ∈ l, selectsStandard flag = false))

/-! ## The standards of the baseline -/

/-- The baseline selects C++11 for C++ and nothing else. -/
structure BaselineStandards (b : Baseline) : Prop where
  cpp : Silent b.cppFlags
  c : Silent b.cFlags
  cxx : standards b.cxxFlags = ["-std=c++11"]
  config : ∀ c, Silent (b.configFlags c)

namespace BaselineStandards

variable {b : Baseline}

theorem standards_c (base : BaselineStandards b) (flags : List String) :
    standards (b.cFlags ++ flags) = standards flags := by
  rw [standards_append, base.c.standards, List.nil_append]

/-- Flags take the place of the standard for C++ where they are put behind the others. -/
theorem standards_cxx (base : BaselineStandards b) (flags : List String) :
    standards (b.cxxFlags.filter (· ≠ "-std=c++11") ++ flags) = standards flags := by
  have hcomm : standards (b.cxxFlags.filter (· ≠ "-std=c++11")) =
      (standards b.cxxFlags).filter (· ≠ "-std=c++11") := by
    rw [standards, standards, List.filter_filter, List.filter_filter]
    exact List.filter_congr fun flag _ => Bool.and_comm _ _
  rw [standards_append, hcomm, base.cxx]
  rfl

end BaselineStandards

/-- Of the flags of a baseline of the GNU style only one of the first four for C++ selects a
standard. -/
theorem GnuFlag.selectsStandard {flag : String} (h : GnuFlag flag) :
    selectsStandard flag = false := by
  have fixed : ∀ flag ∈ gnuFlags, BuildMatrix.selectsStandard flag = false := by decide
  cases h with
  | fixed mem => exact fixed _ mem
  | searches dir => simp [BuildMatrix.selectsStandard, beginsWith, List.isPrefixOf]
  | defines name => simp [BuildMatrix.selectsStandard, beginsWith, List.isPrefixOf]

theorem GnuFlags.silent {flags : List String} (h : GnuFlags flags) : Silent flags :=
  fun flag hflag => (h flag hflag).selectsStandard

theorem baselineStandards_answer {tc : Toolchain} (verdict : FlagSet → Bool)
    (gnu : tc.style = .gnu) (exe : Path) (settings : Settings) (env : Environment) :
    BaselineStandards ((deriveBaseline tc exe settings env).answer verdict) := by
  have base := gnuBaseline_answer verdict gnu exe settings env
  obtain ⟨rest, hcxx, hrest⟩ := base.cxx
  refine ⟨base.cpp.silent, base.c.silent, ?_, fun c => (base.config c).silent⟩
  rw [hcxx, standards_append, hrest.silent.standards]
  decide

/-- A compiler of the GNU style gets no families of Visual C++. -/
theorem msvcVariants_of_gnu {tc : Toolchain} (gnu : tc.style = .gnu) :
    tc.identity.family ≠ .msvc ∧ tc.capabilities.msvcVariants = false := by
  have hne : tc.identity.family ≠ .msvc := by
    intro hmsvc
    rw [Toolchain.style, Toolchain.capabilities, hmsvc] at gnu
    cases gnu
  exact ⟨hne, decide_eq_false hne⟩

/-! ## The standards of the families -/

/-- The standards that the variants of a family select for a language. -/
def familyStandards (family : String) : Language → List String
  | .c =>
      match family with
      | "gnu89" => ["-std=gnu89"]
      | "c11" | "c11-c++17" => ["-std=c11"]
      | "c99" => ["-std=c99"]
      | "gnu++11" => ["-std=gnu++11"]
      | "c++17" | "c++17-noexcept" => ["-std=c++17"]
      | _ => []
  | .cxx =>
      match family with
      | "gnu++11" => ["-std=gnu++11"]
      | "c++17" | "c11-c++17" | "c++17-noexcept" => ["-std=c++17"]
      | _ => ["-std=c++11"]

theorem variantName_inj {family family' : String} {c c' : Configuration}
    (h : variantName family c = variantName family' c') : family = family' ∧ c = c' := by
  have last : ∀ family c, (variantName family c).toList.getLast? = c.name.toList.getLast? := by
    intro family c
    cases c <;> simp [variantName, Configuration.name, List.getLast?_append]
  have hc : c = c' := by
    have hlast : c.name.toList.getLast? = c'.name.toList.getLast? := by
      rw [← last family c, ← last family' c', h]
    revert hlast
    cases c <;> cases c' <;> decide
  subst hc
  refine ⟨?_, rfl⟩
  simpa [variantName] using h

/-- Each variant of a list is of some family and selects the standards of this family. -/
def Standardized (l : List Variant) : Prop :=
  ∀ v ∈ l, ∃ family c, v.name = variantName family c ∧
    ∀ language, standards (v.compileFlags language).toList = familyStandards family language

/-- The standards of a composed command line come from the flags for the language, where the other
flags select none. -/
theorem standards_compileFlags {v : Variant} {language : Language} (cpp : Silent v.cppFlags)
    (overrides : Silent v.overrides) (config : Silent v.configFlags) :
    standards (v.compileFlags language).toList = standards (v.languageFlags language) := by
  have composed : (v.compileFlags language).toList =
      v.cppFlags ++ (v.languageFlags language ++ (v.overrides ++ ([] ++ (v.configFlags ++ [])))) := rfl
  rw [composed]
  simp only [standards_append, cpp.standards, overrides.standards, config.standards,
    List.nil_append, List.append_nil]

namespace Standardized

variable {b : Baseline} {l m : List Variant}

theorem nil : Standardized [] := fun _ h => by cases h

theorem append (hl : Standardized l) (hm : Standardized m) : Standardized (l ++ m) := by
  intro v hv
  exact (List.mem_append.1 hv).elim (hl v) (hm v)

/-- A part that is there on a condition. -/
theorem ite (hl : Standardized l) (c : Prop) [Decidable c] : Standardized (if c then l else []) := by
  split
  · exact hl
  · exact nil

/-- A variant with silent overrides and configuration flags, whose flags for the languages select the
standards of its family. -/
theorem variant (base : BaselineStandards b) {f : Flavour} {name : String}
    {configFlags : List String} {family : String} {c : Configuration}
    (hname : name = variantName family c) (overrides : Silent f.overrides)
    (config : Silent configFlags) (hc : standards f.cFlags = familyStandards family .c)
    (hcxx : standards f.cxxFlags = familyStandards family .cxx) :
    ∃ family c, (f.variant b name configFlags).name = variantName family c ∧
      ∀ language, standards ((f.variant b name configFlags).compileFlags language).toList =
        familyStandards family language := by
  refine ⟨family, c, hname, fun language => ?_⟩
  rw [standards_compileFlags base.cpp overrides config]
  cases language with
  | c => exact hc
  | cxx => exact hcxx

theorem pair (base : BaselineStandards b) {f : Flavour} {family : String}
    (overrides : Silent f.overrides) (hc : standards f.cFlags = familyStandards family .c)
    (hcxx : standards f.cxxFlags = familyStandards family .cxx) :
    Standardized (f.pair b family) := by
  intro v hv
  obtain ⟨c, -, rfl⟩ := List.mem_map.1 hv
  exact variant base rfl overrides (base.config c) hc hcxx

theorem ltoPair (base : BaselineStandards b) : Standardized (ltoPair b) := by
  have config : Silent (b.release.map fun flag => if flag = "-O2" then "-O3" else flag) := by
    intro flag hflag
    obtain ⟨before, hbefore, rfl⟩ := List.mem_map.1 hflag
    split
    · decide
    · exact base.config .release before hbefore
  have ldflags : Silent ["-flto"] := by decide
  intro v hv
  obtain ⟨c, -, rfl⟩ := List.mem_map.1 hv
  cases c with
  | debug => exact variant base rfl ldflags (base.config .debug) base.c.standards base.cxx
  | release => exact variant base rfl ldflags config base.c.standards base.cxx

theorem jemallocFamily (base : BaselineStandards b) (tc : Toolchain) (host : Host)
    (settings : Settings) : Standardized (jemallocFamily tc b host settings) :=
  ite (pair base (GnuFlags.define tc _ _).silent base.c.standards base.cxx) _

theorem valgrindFamily (base : BaselineStandards b) (host : Host) (settings : Settings) :
    Standardized (valgrindFamily b host settings) := by
  refine ite ?_ _
  intro v hv
  have hname : variantName "valgrind" .debug = variantName "valgrind" .debug := rfl
  rw [List.mem_singleton.1 hv]
  exact variant base hname .nil (base.config .debug) base.c.standards base.cxx

variable (accepts : FlagSet → Bool)

theorem gnuCxxFamilies (base : BaselineStandards b) (hasC11 : Bool) :
    Standardized ((gnuCxxFamilies b hasC11).answer accepts) := by
  simp only [BuildMatrix.gnuCxxFamilies, Inquiry.answer_bind, Inquiry.answer_check,
    Inquiry.answer_pure]
  refine (((ite (pair base .nil ?_ ?_) _).append (pair base .nil ?_ ?_)).append
    (ite (pair base .nil ?_ ?_) _)).append (ite (pair base .nil ?_ ?_) _)
  · exact (base.standards_c _).trans (by decide)
  all_goals exact (base.standards_cxx _).trans (by decide)

theorem gnuFamilies (base : BaselineStandards b) :
    Standardized ((gnuFamilies b).answer accepts) := by
  have hfirst : Standardized
      ((if accepts ["-std=gnu89", "-Wno-pedantic"] = true then
          ((Flavour.plain b).withC ["-std=gnu89", "-Wno-pedantic"]).pair b "gnu89" else []) ++
        (if accepts ["-std=c11"] = true then
          ((Flavour.plain b).withC ["-std=c11"]).pair b "c11" else []) ++
        (if accepts ["-std=c99"] = true then
          ((Flavour.plain b).withC ["-std=c99"]).pair b "c99" else []) ++
        if accepts ["-flto"] = true then BuildMatrix.ltoPair b else []) := by
    refine (((ite (pair base .nil ?_ base.cxx) _).append (ite (pair base .nil ?_ base.cxx) _)).append
      (ite (pair base .nil ?_ base.cxx) _)).append (ite (ltoPair base) _)
    all_goals exact (base.standards_c _).trans (by decide)
  simp only [BuildMatrix.gnuFamilies, Inquiry.answer_bind, Inquiry.answer_check,
    Inquiry.answer_pure, Inquiry.answer_ite]
  split
  · exact hfirst.append (gnuCxxFamilies accepts base _)
  · exact hfirst.append nil

/-- The variants of the matrix select the standards of their families, where the compiler is not
Visual C++. -/
theorem matrixVariants (base : BaselineStandards b) {tc : Toolchain}
    (hmsvc : tc.capabilities.msvcVariants = false) (host : Host) (settings : Settings) :
    Standardized ((matrixVariants tc b host settings).answer accepts) := by
  have hdefault : Standardized ((Flavour.plain b).pair b "default") :=
    pair base .nil base.c.standards base.cxx
  simp only [BuildMatrix.matrixVariants, hmsvc, Bool.false_eq_true, if_false, Inquiry.answer_bind,
    Inquiry.answer_pure, Inquiry.answer_ite, List.append_nil]
  split
  · exact ((hdefault.append (gnuFamilies accepts base)).append
      (jemallocFamily base tc host settings)).append (valgrindFamily base host settings)
  · exact (hdefault.append (jemallocFamily base tc host settings)).append
      (valgrindFamily base host settings)

end Standardized

/-! ## Questions about standards -/

section Asked

variable (accepts : FlagSet → Bool)

theorem questions_gnuFamilies (b : Baseline) :
    (gnuFamilies b).questions accepts =
      [["-std=gnu89", "-Wno-pedantic"], ["-std=c11"], ["-std=c99"], ["-flto"]] ++
        if b.supportsCxx = true then
          [["-x", "c++", "-std=c++17"], ["-x", "c++", "-std=c++17", "-fno-exceptions"]]
        else [] := by
  unfold gnuFamilies
  cases b.supportsCxx with
  | true => rfl
  | false => rfl

/-- On the way to the variants all questions about the families of the GNU style are asked. -/
theorem questions_subset_plan {tc : Toolchain} (gnu : tc.style = .gnu)
    (compiler : tc.capabilities.gnuVariants = true) (exe : Path) (settings : Settings)
    (env : Environment) (host : Host) :
    (gnuFamilies ((planVariants tc exe settings env host).answer accepts).1).questions accepts ⊆
      (planVariants tc exe settings env host).questions accepts := by
  have hmsvc : tc.capabilities.msvcVariants = false := (msvcVariants_of_gnu gnu).2
  have hmatrix : ∀ b, (gnuFamilies b).questions accepts ⊆
      (buildMatrix tc b host settings).questions accepts := by
    intro b
    unfold buildMatrix
    simp only [hmsvc, compiler, Bool.false_eq_true, if_true, if_false, Inquiry.questions_bind]
    exact fun _ h => List.mem_append_right _ (List.mem_append_left _ h)
  unfold planVariants
  simp only [Inquiry.questions_bind, Inquiry.answer_bind, Inquiry.answer_pure]
  exact fun _ h => List.mem_append_right _ (List.mem_append_left _ (hmatrix _ h))

/-- Why a variant may select a standard. -/
inductive Warranted (asked : List FlagSet) (name : String) : String → Prop
  /-- It is the standard of the baseline. -/
  | baseline : Warranted asked name "-std=c++11"
  /-- It comes with a family about which nothing is asked. -/
  | unasked (c : Configuration) (family : name = variantName "gnu++11" c) :
      Warranted asked name "-std=gnu++11"
  /-- A question with it was accepted. -/
  | accepted {flag : String} (flags : FlagSet) (question : flags ∈ asked) (mem : flag ∈ flags)
      (yes : accepts flags = true) : Warranted asked name flag

variable {accepts} {tc : Toolchain} {b : Baseline} {host : Host} {family : String}

/-- A family whose standards all stand in an accepted question. -/
theorem Warranted.of_accepted {asked : List FlagSet} {name flag : String} {language : Language}
    {flags : FlagSet} (question : flags ∈ asked) (yes : accepts flags = true)
    (subset : familyStandards family language ⊆ flags) (h : flag ∈ familyStandards family language) :
    Warranted accepts asked name flag := .accepted flags question (subset h) yes

/-- A family whose standards are those of the baseline. -/
theorem Warranted.of_baseline {asked : List FlagSet} {name flag : String} {language : Language}
    (subset : familyStandards family language ⊆ ["-std=c++11"])
    (h : flag ∈ familyStandards family language) : Warranted accepts asked name flag := by
  rw [List.mem_singleton.1 (subset h)]
  exact .baseline

/-- The standards of a family on offer were accepted, but for those of the baseline and of
`gnu++11`. -/
theorem GnuOffered.warranted (offered : GnuOffered b accepts family) (c : Configuration)
    {language : Language} {flag : String} (h : flag ∈ familyStandards family language) :
    Warranted accepts ((gnuFamilies b).questions accepts) (variantName family c) flag := by
  rw [questions_gnuFamilies]
  cases offered with
  | gnu89 yes =>
    cases language with
    | c => exact .of_accepted (by simp) yes (by decide) h
    | cxx => exact .of_baseline (by decide) h
  | c11 yes =>
    cases language with
    | c => exact .of_accepted (by simp) yes (by decide) h
    | cxx => exact .of_baseline (by decide) h
  | c99 yes =>
    cases language with
    | c => exact .of_accepted (by simp) yes (by decide) h
    | cxx => exact .of_baseline (by decide) h
  | lto => exact .of_baseline (by cases language <;> decide) h
  | cxx supported offered =>
    rw [if_pos supported]
    cases offered with
    | gnu11 =>
      have hflag : flag = "-std=gnu++11" := by
        cases language <;> exact List.mem_singleton.1 h
      rw [hflag]
      exact .unasked c rfl
    | cxx17 yes => exact .of_accepted (by simp) yes (by cases language <;> decide) h
    | c11Cxx17 yes c11 =>
      cases language with
      | c => exact .of_accepted (by simp) c11 (by decide) h
      | cxx => exact .of_accepted (by simp) yes (by decide) h
    | noExcept yes => exact .of_accepted (by simp) yes (by cases language <;> decide) h

end Asked

/-! ## The standards of a plan -/

section Plan

variable {tc : Toolchain} (accepts : FlagSet → Bool) (exe : Path) (settings : Settings)
  (env : Environment) (host : Host)

theorem VariantSet.mem_of_mem_toList_ofList {l : List Variant} {v : Variant}
    (h : v ∈ (VariantSet.ofList l).toList) : v ∈ l := by
  obtain ⟨⟨name, w⟩, hmem, rfl⟩ := List.mem_map.1 h
  exact (VariantSet.mem_entries_ofList hmem).1

/-- Each variant of the GNU style has a family, which says what standards stand in its command lines,
and is the only one for valgrind or on offer. -/
theorem standards_planVariants (gnu : tc.style = .gnu) {v : Variant}
    (hv : v ∈ ((planVariants tc exe settings env host).answer accepts).2.toList) :
    ∃ family c, v.name = variantName family c ∧
      (∀ language, standards (v.compileFlags language).toList = familyStandards family language) ∧
      (family = "valgrind" ∨
        Offered tc ((planVariants tc exe settings env host).answer accepts).1 host accepts
          family) := by
  obtain ⟨hfamily, hmsvc⟩ := msvcVariants_of_gnu gnu
  have base : BaselineStandards ((planVariants tc exe settings env host).answer accepts).1 := by
    unfold planVariants
    simp only [Inquiry.answer_bind, Inquiry.answer_pure]
    exact baselineStandards_answer accepts gnu exe settings env
  rw [answer_planVariants] at hv
  generalize ((planVariants tc exe settings env host).answer accepts).1 = b at hv base ⊢
  rw [buildMatrix_eq, Inquiry.answer_bind, Inquiry.answer_pure] at hv
  have hmem := VariantSet.mem_of_mem_toList_ofList hv
  obtain ⟨family, c, hname, hstandards⟩ :=
    Standardized.matrixVariants accepts base hmsvc host settings v hmem
  refine ⟨family, c, hname, hstandards, ?_⟩
  rcases (mem_names_matrixVariants tc b host settings accepts).1 (List.mem_map_of_mem hmem) with
    ⟨family', c', offered, hname'⟩ | ⟨hname', -, -⟩
  · rw [(variantName_inj (hname.symm.trans hname')).1]
    exact .inr offered
  · exact .inl (variantName_inj (hname.symm.trans hname')).1

/-- The standards in the command lines of a plan are warranted by what was asked for it. -/
theorem warranted_planVariants (gnu : tc.style = .gnu) {v : Variant}
    (hv : v ∈ ((planVariants tc exe settings env host).answer accepts).2.toList)
    {language : Language} {flag : String} (h : flag ∈ standards (v.compileFlags language).toList) :
    Warranted accepts ((planVariants tc exe settings env host).questions accepts) v.name flag := by
  obtain ⟨family, c, hname, hstandards, offered⟩ :=
    standards_planVariants accepts exe settings env host gnu hv
  rw [hstandards] at h
  rw [hname]
  rcases offered with rfl | offered
  · exact .of_baseline (by cases language <;> decide) h
  · cases offered with
    | default => exact .of_baseline (by cases language <;> decide) h
    | msvc compiler => exact absurd compiler (msvcVariants_of_gnu gnu).1
    | jemalloc => exact .of_baseline (by cases language <;> decide) h
    | gnu compiler offered =>
      have hsub := questions_subset_plan accepts gnu compiler exe settings env host
      cases offered.warranted c h with
      | baseline => exact .baseline
      | unasked c family => exact .unasked c family
      | accepted flags question mem yes => exact .accepted flags (hsub question) mem yes

end Plan

namespace Prober

/-- In a plan for a compiler of the GNU style every standard in the command line of a variant is that of
the baseline, comes with the family `gnu++11`, or stands in a question to which the answer was yes.
This holds for every assignment of verdicts, and for every run, where the verdicts are those in the
cache at the end.  So of the standards that a compiler never accepts, a plan has at most these two:
nothing is asked about `-std=gnu++11` before its family is added. -/
theorem plan_standards (p : Prober) (gnu : p.toolchain.style = .gnu) (settings : Settings)
    (env : Environment) (host : Host) {v : Variant} {language : Language} {flag : String}
    (h : flag ∈ standards (v.compileFlags language).toList) :
    (∀ accepts : FlagSet → Bool,
      v ∈ ((planVariants p.toolchain p.exe settings env host).answer accepts).2.toList →
        Warranted accepts ((planVariants p.toolchain p.exe settings env host).questions accepts)
          v.name flag) ∧
    ∀ (s s' : Probing) (made : Baseline × VariantSet), p.plan settings env host s = .ok made s' →
      v ∈ made.2.toList →
        Warranted s'.cache.verdict (p.planQuestions settings env host s) v.name flag ∧
        (∀ flags ∈ p.planQuestions settings env host s,
          s'.cache.get? flags = some (s'.cache.verdict flags)) ∧
        ∀ accepts, p.Steady accepts → s.cache.Truthful accepts →
          (∀ flags, flag ∈ flags → accepts flags = false) →
            flag = "-std=c++11" ∨ flag = "-std=gnu++11" ∧ ∃ c, v.name = variantName "gnu++11" c := by
  refine ⟨fun accepts hv => warranted_planVariants accepts p.exe settings env host gnu hv h,
    fun s s' made plan hv => ?_⟩
  obtain ⟨checks, carried⟩ := carryOut_eq_ok_iff.1 plan
  obtain ⟨hmade, hknown⟩ := carried.answer
  have warranted : Warranted s'.cache.verdict (p.planQuestions settings env host s) v.name flag := by
    rw [planQuestions, carried.asked_eq]
    exact warranted_planVariants s'.cache.verdict p.exe settings env host gnu (hmade ▸ hv) h
  have known : ∀ flags ∈ p.planQuestions settings env host s,
      s'.cache.get? flags = some (s'.cache.verdict flags) := by
    intro flags hflags
    rw [planQuestions, carried.asked_eq] at hflags
    exact hknown flags hflags
  refine ⟨warranted, known, fun accepts steady truthful rejected => ?_⟩
  cases warranted with
  | baseline => exact .inl rfl
  | unasked c family => exact .inr ⟨rfl, c, family⟩
  | accepted flags question mem yes =>
    -- the cache holds nothing but the verdicts of the compiler
    have htrue := carried.truthful steady truthful flags _ (known flags question)
    rw [yes, rejected flags mem] at htrue
    cases htrue

/-! ## A strict compiler -/

/-- A runner whose compiler accepts everything but one token. -/
def runnerWithout (token : String) : Runner where
  find? name := some ⟨name⟩
  answer _ command := .ok ⟨some (if token ∈ command.arguments then 1 else 0), "", ""⟩

/-- It accepts by a rule, if the token is not one that every command has. -/
theorem steady_runnerWithout (token : String)
    (h : token ∉ ((ofGcc (runnerWithout token)).command []).arguments) :
    (ofGcc (runnerWithout token)).Steady fun flags => !flags.contains token := by
  intro calls flags
  have hmem : token ∈ ((ofGcc (runnerWithout token)).command flags).arguments ↔ token ∈ flags := by
    change token ∉ ["-Wall", "-Wextra", "-Wpedantic", "-Werror"] ++ [] ++ _ at h
    change token ∈ ["-Wall", "-Wextra", "-Wpedantic", "-Werror"] ++ flags ++ _ ↔ _
    rw [List.append_nil, List.mem_append, not_or] at h
    rw [List.mem_append, List.mem_append, or_iff_right h.1, or_iff_left h.2]
  change decide (some (if token ∈ ((ofGcc (runnerWithout token)).command flags).arguments then
    (1 : Int) else 0) = some 0) = _
  simp only [hmem]
  by_cases hflags : token ∈ flags
  · simp [hflags]
  · simp [hflags]

/-- A prober of a GCC that does not know `-std=gnu++11`. -/
def strictGcc : Prober := ofGcc (runnerWithout "-std=gnu++11")

/-- Whether this GCC accepts a flag set. -/
def strictRule (flags : FlagSet) : Bool := !flags.contains "-std=gnu++11"

/-- What it is asked for a plan. -/
def strictInquiry : Inquiry (Baseline × VariantSet) :=
  planVariants strictGcc.toolchain strictGcc.exe {} {} {}

/-- The state in which it is asked. -/
def strictStart : Probing := inBareProject (Cache.empty "GCC:gcc")

theorem steady_strictGcc : strictGcc.Steady strictRule := steady_runnerWithout _ (by decide)

/-- It asks and makes the plan by its rule. -/
theorem exists_plan_strictGcc :
    ∃ s', strictGcc.plan {} {} {} strictStart = .ok (strictInquiry.answer strictRule) s' ∧
      strictGcc.planQuestions {} {} {} strictStart = strictInquiry.questions strictRule := by
  obtain ⟨checks, made, s', carried, -⟩ :
      ∃ checks made s', Carried strictGcc strictInquiry strictStart checks made s' ∧ _ :=
    exists_prepared strictInquiry room_bareProject (clear_bareProject List.mem_cons_self)
  obtain ⟨hasked, hmade⟩ := carried.steady steady_strictGcc (.empty _)
  exact ⟨s', hmade ▸ carryOut_eq_ok_iff.2 ⟨checks, carried⟩, hasked⟩

/-- It gets a variant for C++17 in which `-std=c++17` is warranted, and not for want of a question. -/
theorem plan_standards_of_strict_gcc :
    ∃ (s' : Probing) (made : Baseline × VariantSet), ∃ v ∈ made.2.toList,
      strictGcc.plan {} {} {} strictStart = .ok made s' ∧ v.name = "c++17-debug" ∧
        "-std=c++17" ∈ standards (v.compileFlags .c).toList ∧
        ∃ flags ∈ strictGcc.planQuestions {} {} {} strictStart,
          "-std=c++17" ∈ flags ∧ s'.cache.get? flags = some true := by
  obtain ⟨s', plan, -⟩ := exists_plan_strictGcc
  obtain ⟨v, hv, hname, hflag⟩ : ∃ v ∈ (strictInquiry.answer strictRule).2.toList,
      v.name = "c++17-debug" ∧ "-std=c++17" ∈ standards (v.compileFlags .c).toList := by
    decide +kernel
  refine ⟨s', _, v, hv, plan, hname, hflag, ?_⟩
  obtain ⟨warranted, known, -⟩ :=
    (plan_standards strictGcc rfl {} {} {} hflag).2 _ _ _ plan hv
  generalize hflag' : "-std=c++17" = flag at warranted
  cases warranted with
  | baseline => exact absurd hflag' (by decide)
  | unasked => exact absurd hflag' (by decide)
  | accepted flags question mem yes =>
    exact ⟨flags, question, mem, yes ▸ known flags question⟩

/-- Though it refuses every set with `-std=gnu++11`, it gets a variant that compiles both languages with
this flag, without a question. -/
theorem plan_standards_unasked :
    strictGcc.Steady strictRule ∧ (∀ flags, "-std=gnu++11" ∈ flags → strictRule flags = false) ∧
    ∃ (s' : Probing) (made : Baseline × VariantSet), ∃ v ∈ made.2.toList,
      strictGcc.plan {} {} {} strictStart = .ok made s' ∧ v.name = "gnu++11-debug" ∧
        "-std=gnu++11" ∈ (v.compileFlags .c).toList ∧ "-std=gnu++11" ∈ (v.compileFlags .cxx).toList ∧
        ∀ flags ∈ strictGcc.planQuestions {} {} {} strictStart, "-std=gnu++11" ∉ flags := by
  have refuses : ∀ flags, "-std=gnu++11" ∈ flags → strictRule flags = false := by
    intro flags hflags
    rw [strictRule, List.contains_iff_mem.2 hflags, Bool.not_true]
  obtain ⟨s', plan, hasked⟩ := exists_plan_strictGcc
  obtain ⟨v, hv, hname, hc, hcxx⟩ : ∃ v ∈ (strictInquiry.answer strictRule).2.toList,
      v.name = "gnu++11-debug" ∧ "-std=gnu++11" ∈ (v.compileFlags .c).toList ∧
        "-std=gnu++11" ∈ (v.compileFlags .cxx).toList := by
    decide +kernel
  refine ⟨steady_strictGcc, refuses, s', _, v, hv, plan, hname, hc, hcxx, ?_⟩
  rw [hasked]
  decide +kernel

end Prober

end BuildMatrix
