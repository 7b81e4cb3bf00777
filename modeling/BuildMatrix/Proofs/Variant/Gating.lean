import BuildMatrix.Proofs.Variant.Standards

/-!
# Gated flags

A baseline has two kinds of flags.  Some a compiler of its style always takes, among them what the
settings ask for.  The others are *gated*: each stands in the baseline if the compiler accepts one
certain question.  There are three kinds of questions.

* A flag is asked about alone.  So are warnings and safeguards, the flags for C and `-Og`, and so are
  alternatives, of which the first that is accepted is taken.
* A flag is asked about together with the list that it would join.  So are the fortify defines and the
  two warnings for C++, where the list holds whatever joined it before.
* A flag is asked about in the form in which a probe can use it.  So are the run-time libraries for
  C++ and dependency files.

`Gated` goes through the lists of a baseline and says for each gated flag which question decides about
it.  A flag is looked for by name in the whole list, so a statement about it covers what comes from the
settings too: these flags begin with `-I`, `/I` or `-D`, and no candidate does.

A baseline is gated by every assignment of verdicts (`gated_answer`), and one that a prober finds out
in a run is gated by the verdicts in its cache (`Prober.baseline_gated`).
-/

namespace BuildMatrix

open Text

/-! ## Candidates -/

/-- The candidates for the flags of all compilations, in the order in which they would stand there. -/
def commonCandidates : List String :=
  "-Wfatal-errors" :: (colourCandidates ++ aliasingCandidates ++ extraCandidates)

/-- The candidates for the flags for C++. -/
def cxxCandidates : List String := ["-Wold-style-cast", "-Wzero-as-null-pointer-constant"]

/-- The flags of a list that are candidates, in the order of the list. -/
def among (candidates flags : List String) : List String := flags.filter (· ∈ candidates)

theorem among_append (candidates l m : List String) :
    among candidates (l ++ m) = among candidates l ++ among candidates m := List.filter_append ..

theorem among_of_subset {candidates l : List String} (h : l ⊆ candidates) :
    among candidates l = l :=
  List.filter_eq_self.2 fun _ hflag => decide_eq_true (h hflag)

/-- No flag of a list is a candidate. -/
def Fixed (candidates flags : List String) : Prop := ∀ flag ∈ flags, flag ∉ candidates

instance (candidates flags : List String) : Decidable (Fixed candidates flags) :=
  inferInstanceAs (Decidable (∀ flag ∈ flags, flag ∉ candidates))

namespace Fixed

variable {candidates l m : List String}

theorem among (h : Fixed candidates l) : among candidates l = [] :=
  List.filter_eq_nil_iff.2 fun flag hflag hmem => h flag hflag (of_decide_eq_true hmem)

theorem append (hl : Fixed candidates l) (hm : Fixed candidates m) : Fixed candidates (l ++ m) :=
  List.forall_mem_append.2 ⟨hl, hm⟩

end Fixed

/-- Candidates are neither directories to search nor defines. -/
structure Unsettable (candidates : List String) : Prop where
  include_gnu : ∀ flag ∈ candidates, beginsWith "-I" flag = false
  include_msvc : ∀ flag ∈ candidates, beginsWith "/I" flag = false
  define : ∀ flag ∈ candidates, beginsWith "-D" flag = false

theorem unsettable_commonCandidates : Unsettable commonCandidates :=
  ⟨by decide, by decide, by decide⟩

theorem unsettable_cxxCandidates : Unsettable cxxCandidates := ⟨by decide, by decide, by decide⟩

namespace Unsettable

variable {candidates : List String}

/-- A flag that begins with a part is none of those that do not. -/
theorem not_mem_of_begins {part : String} (h : ∀ flag ∈ candidates, beginsWith part flag = false)
    (rest : String) : part ++ rest ∉ candidates := by
  intro hmem
  have hbegins : beginsWith part (part ++ rest) = true := by
    rw [beginsWith_iff, String.toList_append]
    exact List.prefix_append _ _
  rw [h _ hmem] at hbegins
  cases hbegins

theorem fixed_includeFlags (h : Unsettable candidates) (tc : Toolchain) (dirs : List Path) :
    Fixed candidates (dirs.map tc.includeFlag) := by
  refine List.forall_mem_map.2 fun dir _ => ?_
  unfold Toolchain.includeFlag
  cases tc.style with
  | gnu => exact not_mem_of_begins h.include_gnu _
  | msvc => exact not_mem_of_begins h.include_msvc _

theorem fixed_defineFlag (h : Unsettable candidates) (tc : Toolchain) (name : String) :
    Fixed candidates [tc.defineFlag name none] :=
  List.forall_mem_singleton.2 (not_mem_of_begins h.define name)

end Unsettable

/-! ## Gates -/

/-- The gated flags of a baseline are those that the compiler accepts. -/
structure Gated (tc : Toolchain) (exe : Path) (settings : Settings) (env : Environment)
    (accepts : FlagSet → Bool) (b : Baseline) : Prop where
  /-- Of the candidates for all compilations, in this order: the flag that stops at the first error,
  where the family has no other one; the first of the flags for colour, but none under continuous
  integration; the first of the flags for aliasing; and all of the extra ones.  Each is accepted alone,
  and none is there outside the GNU style. -/
  common : among commonCandidates b.cppFlags =
    if tc.style = .gnu then
      (if tc.capabilities.maxErrorsFlag then []
        else ["-Wfatal-errors"].filter (acceptsAlone accepts)) ++
      (if env.ci then [] else (colourCandidates.find? (acceptsAlone accepts)).toList) ++
      (aliasingCandidates.find? (acceptsAlone accepts)).toList ++
      extraCandidates.filter (acceptsAlone accepts)
    else []
  /-- Of the candidates for C, those that are accepted alone. -/
  c : among cCandidates b.cFlags =
    if tc.style = .gnu then cCandidates.filter (acceptsAlone accepts) else []
  /-- Dependency files are written if the compiler takes the flags for one. -/
  depfile : b.depfile = true ↔ tc.style = .gnu ∧ accepts ["-MD", "-MF", exe.text ++ ".d"] = true
  /-- The debug flags end in the fortify define if they are accepted with it. -/
  debug : b.debug = joined accepts
    (tc.debugOptFlags (tc.capabilities.prefersOg && accepts ["-Og"]) ++ ["-DDEBUG"])
    "-D_FORTIFY_SOURCE=2"
  /-- `-Og` is among them where it is wanted and accepted alone. -/
  og : "-Og" ∈ b.debug ↔ tc.capabilities.prefersOg = true ∧ accepts ["-Og"] = true
  /-- Otherwise the GNU style has `-O0`. -/
  o0 : "-O0" ∈ b.debug ↔ tc.style = .gnu ∧ "-Og" ∉ b.debug
  /-- The release flags end in the fortify define if they are accepted with it. -/
  release : b.release = joined accepts (tc.releaseOptFlags ++ ["-DNDEBUG"]) "-D_FORTIFY_SOURCE=1"
  /-- The flags for C++ end in the candidates that they are accepted with, one after the other. -/
  cxx : b.cxxFlags =
    if tc.style = .gnu then
      joined accepts (joined accepts (plainCxxFlags tc settings) "-Wold-style-cast")
        "-Wzero-as-null-pointer-constant"
    else joined accepts (plainCxxFlags tc settings) "-Wold-style-cast"
  /-- The warning about casts is among them if the plain ones are accepted with it. -/
  oldStyle : "-Wold-style-cast" ∈ b.cxxFlags ↔
    accepts (plainCxxFlags tc settings ++ ["-Wold-style-cast"]) = true
  /-- The warning about zero pointers is among them if what was there before is accepted with it. -/
  zeroPointer : "-Wzero-as-null-pointer-constant" ∈ b.cxxFlags ↔ tc.style = .gnu ∧
    accepts (joined accepts (plainCxxFlags tc settings) "-Wold-style-cast" ++
      ["-Wzero-as-null-pointer-constant"]) = true
  /-- A family that is asked about C++ does it if it accepts one of the run-time libraries.  The only
  flag for the linker is that of the first one that it accepts. -/
  runtime : ∀ first second, tc.capabilities.cxx = .probe first second →
    (b.supportsCxx = true ↔
      accepts (runtimeQuestion first) = true ∨ accepts (runtimeQuestion second) = true) ∧
    b.ldFlags =
      (([first, second].find? fun runtime => accepts (runtimeQuestion runtime)).map
        runtimeFlag).toList

/-! ## What is no candidate -/

section Baseline

variable {tc : Toolchain} (accepts : FlagSet → Bool) (exe : Path) (settings : Settings)
  (env : Environment)

/-- What comes from the settings and what every compiler of the style takes is no candidate. -/
theorem among_cppFlags (firstError found : List String) (manual : Bool) :
    among commonCandidates (tc.warningFlags ++ settings.includeDirs.map tc.includeFlag ++
        [tc.defineFlag (settings.macroName "UNIT_TEST") none] ++ firstError ++ found ++
        if manual then
          [tc.defineFlag (settings.macroName "MANUAL_UNIT_TEST_REGISTRATION") none]
        else []) =
      among commonCandidates firstError ++ among commonCandidates found := by
  have warnings : Fixed commonCandidates tc.warningFlags := by
    unfold Toolchain.warningFlags
    cases tc.style <;> cases tc.capabilities.warningsAsErrors <;> decide
  have dirs := unsettable_commonCandidates.fixed_includeFlags tc settings.includeDirs
  have define := unsettable_commonCandidates.fixed_defineFlag tc
  have last : Fixed commonCandidates (if manual then
      [tc.defineFlag (settings.macroName "MANUAL_UNIT_TEST_REGISTRATION") none] else []) := by
    split
    · exact define _
    · exact List.forall_mem_nil _
  rw [among_append, among_append, among_append, ((warnings.append dirs).append (define _)).among,
    last.among, List.nil_append, List.append_nil]

theorem fixed_plainCxxFlags (tc : Toolchain) : Fixed cxxCandidates (plainCxxFlags tc settings) := by
  refine Fixed.append ?_ (unsettable_cxxCandidates.fixed_includeFlags tc _)
  unfold Toolchain.cxxLanguageFlags
  cases tc.style <;> decide

/-- Neither warning for C++ is there before it is asked about. -/
theorem cxxCandidates_fresh (tc : Toolchain) :
    "-Wold-style-cast" ∉ plainCxxFlags tc settings ∧
    "-Wzero-as-null-pointer-constant" ∉
      joined accepts (plainCxxFlags tc settings) "-Wold-style-cast" := by
  have plain := fixed_plainCxxFlags settings tc
  rw [mem_joined, not_or]
  exact ⟨fun h => plain _ h List.mem_cons_self,
    fun h => plain _ h (List.mem_cons_of_mem _ List.mem_cons_self), fun h => absurd h.1 (by decide)⟩

/-- The chosen candidates for all compilations are candidates. -/
theorem among_chosen (maxErrors : Bool) :
    among commonCandidates
        (if maxErrors then ["-fmax-errors=1"]
          else ["-Wfatal-errors"].filter (acceptsAlone accepts)) ++
      among commonCandidates
        ((if env.ci then [] else (colourCandidates.find? (acceptsAlone accepts)).toList) ++
          (aliasingCandidates.find? (acceptsAlone accepts)).toList ++
          extraCandidates.filter (acceptsAlone accepts)) =
    (if maxErrors then [] else ["-Wfatal-errors"].filter (acceptsAlone accepts)) ++
      (if env.ci then [] else (colourCandidates.find? (acceptsAlone accepts)).toList) ++
      (aliasingCandidates.find? (acceptsAlone accepts)).toList ++
      extraCandidates.filter (acceptsAlone accepts) := by
  have other : Fixed commonCandidates ["-fmax-errors=1"] := by decide
  have fatal : among commonCandidates (if maxErrors then ["-fmax-errors=1"]
      else ["-Wfatal-errors"].filter (acceptsAlone accepts)) =
        if maxErrors then [] else ["-Wfatal-errors"].filter (acceptsAlone accepts) := by
    split
    · exact other.among
    · exact among_of_subset (List.Subset.trans (List.filter_subset_self _) (by decide))
  have found : ∀ group : List String, group ⊆ commonCandidates →
      (group.find? (acceptsAlone accepts)).toList ⊆ commonCandidates := fun group hgroup flag hflag =>
    hgroup (List.mem_of_find?_eq_some (Option.mem_toList.1 hflag))
  rw [fatal, among_of_subset, List.append_assoc, List.append_assoc, List.append_assoc]
  refine List.append_subset.2 ⟨List.append_subset.2 ⟨?_, found _ (by decide)⟩,
    List.Subset.trans (List.filter_subset_self _) (by decide)⟩
  split
  · exact List.nil_subset _
  · exact found _ (by decide)

/-! ## The gates of a baseline -/

/-- What a family wants and what it is asked belongs to the GNU style. -/
theorem gnu_of_prefersOg (h : tc.capabilities.prefersOg = true) : tc.style = .gnu := by
  have hgcc : tc.identity.family = .gcc := of_decide_eq_true h
  rw [Toolchain.style, Toolchain.capabilities, hgcc]
  rfl

theorem gnu_of_probe {first second : CxxRuntime}
    (h : tc.capabilities.cxx = .probe first second) : tc.style = .gnu := by
  rw [Toolchain.capabilities] at h
  rw [Toolchain.style, Toolchain.capabilities]
  cases hfamily : tc.identity.family with
  | msvc => rw [hfamily] at h; cases h
  | _ => rfl

theorem maxErrorsFlag_of_msvc (h : tc.style = .msvc) : tc.capabilities.maxErrorsFlag = false := by
  rw [Toolchain.style, Toolchain.capabilities] at h
  rw [Toolchain.capabilities]
  cases hfamily : tc.identity.family with
  | msvc => rfl
  | _ => rw [hfamily] at h; cases h

/-- The optimisation flags of debug builds, wherever they stand. -/
theorem mem_debug (tc : Toolchain) :
    ("-Og" ∈ joined accepts
        (tc.debugOptFlags (tc.capabilities.prefersOg && accepts ["-Og"]) ++ ["-DDEBUG"])
        "-D_FORTIFY_SOURCE=2" ↔ tc.capabilities.prefersOg = true ∧ accepts ["-Og"] = true) ∧
      ("-O0" ∈ joined accepts
        (tc.debugOptFlags (tc.capabilities.prefersOg && accepts ["-Og"]) ++ ["-DDEBUG"])
        "-D_FORTIFY_SOURCE=2" ↔
          tc.style = .gnu ∧ ¬ (tc.capabilities.prefersOg = true ∧ accepts ["-Og"] = true)) := by
  have wanted : (tc.capabilities.prefersOg && accepts ["-Og"]) = true → tc.style = .gnu :=
    fun h => gnu_of_prefersOg (Bool.and_eq_true_iff.1 h).1
  rw [← Bool.and_eq_true_iff]
  generalize (tc.capabilities.prefersOg && accepts ["-Og"]) = useOg at wanted ⊢
  simp only [mem_joined, Toolchain.debugOptFlags]
  cases hstyle : tc.style with
  | gnu => cases useOg <;> simp
  | msvc =>
    cases useOg with
    | true => rw [hstyle] at wanted; cases wanted rfl
    | false => simp

theorem gated_of_gnu (gnu : tc.style = .gnu) : Gated tc exe settings env accepts
    ((deriveBaseline tc exe settings env).answer accepts) := by
  obtain ⟨old, zero⟩ := cxxCandidates_fresh accepts settings tc
  obtain ⟨og, o0⟩ := mem_debug accepts tc
  rw [answer_deriveBaseline accepts gnu]
  refine ⟨?_, ?_, (and_iff_right gnu).symm, rfl, og,
    o0.trans (and_congr_right fun _ => not_congr og.symm), rfl, (if_pos gnu).symm, ?_,
    (mem_joined_self accepts zero).trans (and_iff_right gnu).symm, fun first second asked => ?_⟩
  · rw [if_pos gnu]
    exact (among_cppFlags settings _ _ _).trans (among_chosen accepts env _)
  · rw [if_pos gnu]
    exact among_of_subset (List.filter_subset_self _)
  · refine (mem_joined accepts).trans ?_
    rw [or_iff_left fun h => absurd h.1 (by decide)]
    exact mem_joined_self accepts old
  · obtain ⟨supported, linked⟩ := answer_cxxRuntime accepts asked
    exact ⟨by rw [← Bool.or_eq_true, ← supported], linked⟩

theorem gated_of_msvc (msvc : tc.style = .msvc) : Gated tc exe settings env accepts
    ((deriveBaseline tc exe settings env).answer accepts) := by
  have other : ¬ tc.style = .gnu := by
    rw [msvc]
    decide
  have language : Fixed cCandidates tc.cLanguageFlags := by
    rw [Toolchain.cLanguageFlags, msvc]
    decide
  have firstError : (firstErrorFlags tc).answer accepts = [] := by
    rw [firstErrorFlags, maxErrorsFlag_of_msvc msvc, msvc]
    rfl
  obtain ⟨old, zero⟩ := cxxCandidates_fresh accepts settings tc
  obtain ⟨og, o0⟩ := mem_debug accepts tc
  simp only [deriveBaseline, msvc, Inquiry.answer_bind, Inquiry.answer_pure, answer_debugFlags,
    ← joined_eq, firstError]
  refine ⟨?_, ?_, iff_of_false Bool.false_ne_true fun h => other h.1, rfl, og,
    o0.trans (and_congr_right fun _ => not_congr og.symm), rfl, (if_neg other).symm,
    mem_joined_self accepts old, iff_of_false zero fun h => other h.1,
    fun first second asked => absurd (gnu_of_probe asked) other⟩
  · rw [if_neg other]
    exact among_cppFlags settings _ _ _
  · rw [if_neg other]
    exact (among_append cCandidates _ _).trans (by rw [language.among]; rfl)

theorem gated_answer : Gated tc exe settings env accepts
    ((deriveBaseline tc exe settings env).answer accepts) := by
  cases hstyle : tc.style with
  | gnu => exact gated_of_gnu accepts exe settings env hstyle
  | msvc => exact gated_of_msvc accepts exe settings env hstyle

end Baseline

/-! ## Baselines of a prober -/

namespace Prober

/-- The gated flags of a baseline are those that the compiler accepts.  This holds for every assignment
of verdicts, and a prober whose cache has the verdicts that are asked for comes to this baseline.  It
holds for every run, where the verdicts are those in the cache at the end. -/
theorem baseline_gated (p : Prober) (settings : Settings) (env : Environment) :
    (∀ (accepts : FlagSet → Bool) (s : Probing),
      Gated p.toolchain p.exe settings env accepts
        ((deriveBaseline p.toolchain p.exe settings env).answer accepts) ∧
      ((∀ flags ∈ (deriveBaseline p.toolchain p.exe settings env).questions accepts,
          s.cache.get? flags = some (accepts flags)) →
        p.carryOut (deriveBaseline p.toolchain p.exe settings env) s =
          .ok ((deriveBaseline p.toolchain p.exe settings env).answer accepts) s)) ∧
    ∀ (s s' : Probing) (b : Baseline),
      p.carryOut (deriveBaseline p.toolchain p.exe settings env) s = .ok b s' →
        Gated p.toolchain p.exe settings env s'.cache.verdict b ∧
        ∀ flags ∈ p.asked (deriveBaseline p.toolchain p.exe settings env) s,
          s'.cache.get? flags = some (s'.cache.verdict flags) := by
  refine ⟨fun accepts s => ⟨gated_answer accepts _ settings env, carryOut_of_known⟩,
    fun s s' b run => ?_⟩
  obtain ⟨checks, carried⟩ := carryOut_eq_ok_iff.1 run
  obtain ⟨rfl, known⟩ := carried.answer
  refine ⟨gated_answer _ _ settings env, fun flags hflags => ?_⟩
  rw [carried.asked_eq] at hflags
  exact known flags hflags

/-- A prober of a GCC that does not know the strictest warning about aliasing. -/
def lenientAboutAliasing : Prober := ofGcc (runnerWithout "-Wstrict-aliasing=3")

/-- It gets the next one, and all extra warnings. -/
theorem baseline_falls_back :
    ∃ (s' : Probing) (b : Baseline),
      lenientAboutAliasing.carryOut
        (deriveBaseline lenientAboutAliasing.toolchain lenientAboutAliasing.exe {} {}) strictStart =
          .ok b s' ∧
      Gated lenientAboutAliasing.toolchain lenientAboutAliasing.exe {} {} s'.cache.verdict b ∧
      among commonCandidates b.cppFlags =
        ["-fdiagnostics-color=always", "-Wstrict-aliasing=2"] ++ extraCandidates ∧
      b.ldFlags = ["-lstdc++"] := by
  obtain ⟨checks, b, s', carried, -⟩ := exists_prepared (p := lenientAboutAliasing)
    (deriveBaseline lenientAboutAliasing.toolchain lenientAboutAliasing.exe {} {})
    (s := strictStart) room_bareProject (clear_bareProject List.mem_cons_self)
  have run := carryOut_eq_ok_iff.2 ⟨checks, carried⟩
  have steady := steady_runnerWithout "-Wstrict-aliasing=3" (by decide +kernel)
  have hb := (carried.steady steady (.empty _)).2
  have gated := (baseline_gated lenientAboutAliasing {} {}).1
    (fun flags => !flags.contains "-Wstrict-aliasing=3") strictStart
  refine ⟨s', b, run, ((baseline_gated lenientAboutAliasing {} {}).2 _ _ _ run).1, ?_, ?_⟩
  · rw [hb, gated.1.common]
    decide +kernel
  · rw [hb, (gated.1.runtime .libstdcxx .libcxx rfl).2]
    decide +kernel

end Prober

end BuildMatrix
