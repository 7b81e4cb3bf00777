import BuildMatrix.Proofs.Variant.Families

/-!
# Where the flags of a baseline come from

The parts of a baseline are found out by asking in one of four ways, and each way comes to a list
that can be written down (`answer_keepIfAccepted` and its like).  From these the lists of a baseline in
the GNU style are put together (`answer_deriveBaseline`).

So every flag of such a baseline has one of three origins: it is one of a fixed list, it is a directory
of the settings, or it defines a name.  `GnuFlag` says so, and `gnuBaseline_answer` that it holds of
all flags but the first four for C++, whatever the compiler accepts and whatever the settings have.
What is true of these three kinds of flags is true of all flags of the baseline.
-/

namespace BuildMatrix

open Text

/-! ## Answers of the ways to ask -/

section Ask

variable (verdict : FlagSet → Bool)

theorem answer_keepIfAccepted (flag : String) :
    (keepIfAccepted flag).answer verdict = if verdict [flag] then [flag] else [] := by
  rw [keepIfAccepted, Inquiry.answer_bind, Inquiry.answer_check, Inquiry.answer_pure]

theorem answer_extendIfAccepted (list : List String) (flag : String) :
    (extendIfAccepted list flag).answer verdict =
      if verdict (list ++ [flag]) then list ++ [flag] else list := by
  rw [extendIfAccepted, Inquiry.answer_bind, Inquiry.answer_check, Inquiry.answer_pure]

theorem answer_firstAccepted (flags : List String) :
    (firstAccepted flags).answer verdict = (flags.find? fun flag => verdict [flag]).toList := by
  induction flags with
  | nil => rfl
  | cons flag rest ih =>
    rw [firstAccepted, Inquiry.answer_bind, Inquiry.answer_check, Inquiry.answer_ite,
      Inquiry.answer_pure, ih, List.find?_cons]
    cases verdict [flag] with
    | true => rfl
    | false => rfl

theorem answer_eachAccepted (flags : List String) :
    (eachAccepted flags).answer verdict = flags.filter fun flag => verdict [flag] := by
  induction flags with
  | nil => rfl
  | cons flag rest ih =>
    rw [eachAccepted, Inquiry.answer_bind, Inquiry.answer_bind, Inquiry.answer_pure,
      answer_keepIfAccepted, ih, List.filter_cons]
    cases verdict [flag] with
    | true => rfl
    | false => rfl

variable {P : String → Prop} {list : List String} {flag : String}

/-- What holds of a list and of a candidate holds of the list with the candidate, if it is accepted. -/
theorem forall_extendIfAccepted (hlist : ∀ f ∈ list, P f) (hflag : P flag) :
    ∀ f ∈ (extendIfAccepted list flag).answer verdict, P f := by
  rw [answer_extendIfAccepted]
  split
  · exact List.forall_mem_append.2 ⟨hlist, List.forall_mem_singleton.2 hflag⟩
  · exact hlist

theorem forall_keepIfAccepted (hflag : P flag) :
    ∀ f ∈ (keepIfAccepted flag).answer verdict, P f := by
  rw [answer_keepIfAccepted]
  split
  · exact List.forall_mem_singleton.2 hflag
  · exact List.forall_mem_nil P

/-- What holds of all candidates holds of those that are accepted. -/
theorem forall_firstAccepted (hlist : ∀ f ∈ list, P f) :
    ∀ f ∈ (firstAccepted list).answer verdict, P f := by
  rw [answer_firstAccepted]
  exact fun f hf => hlist f (List.mem_of_find?_eq_some (Option.mem_toList.1 hf))

theorem forall_eachAccepted (hlist : ∀ f ∈ list, P f) :
    ∀ f ∈ (eachAccepted list).answer verdict, P f := by
  rw [answer_eachAccepted]
  exact fun f hf => hlist f (List.filter_subset_self _ hf)

end Ask

/-! ## Gates -/

/-- Whether a flag is accepted alone. -/
def acceptsAlone (accepts : FlagSet → Bool) (flag : String) : Bool := accepts [flag]

/-- A list that a flag has joined at the end, if the list is accepted with it. -/
def joined (accepts : FlagSet → Bool) (list : List String) (flag : String) : List String :=
  list ++ if accepts (list ++ [flag]) then [flag] else []

section Gates

variable (accepts : FlagSet → Bool) {list : List String} {flag other : String}

theorem joined_eq (list : List String) (flag : String) :
    joined accepts list flag = (extendIfAccepted list flag).answer accepts := by
  rw [answer_extendIfAccepted, joined]
  split
  · rfl
  · exact List.append_nil _

theorem mem_joined :
    other ∈ joined accepts list flag ↔
      other ∈ list ∨ other = flag ∧ accepts (list ++ [flag]) = true := by
  unfold joined
  split
  · next yes => rw [List.mem_append, List.mem_singleton, and_iff_left yes]
  · next no => rw [List.append_nil, or_iff_left (fun h => no h.2)]

/-- A flag that was not there before joins a list exactly if the list is accepted with it. -/
theorem mem_joined_self (h : flag ∉ list) :
    flag ∈ joined accepts list flag ↔ accepts (list ++ [flag]) = true := by
  rw [mem_joined, or_iff_right h, and_iff_right rfl]

theorem exists_joined (list : List String) (flag : String) :
    ∃ more, joined accepts list flag = list ++ more ∧ more ⊆ [flag] := by
  refine ⟨_, rfl, ?_⟩
  split
  · exact List.Subset.refl _
  · exact List.nil_subset _

theorem answer_keepIfAccepted_eq_filter (flag : String) :
    (keepIfAccepted flag).answer accepts = [flag].filter (acceptsAlone accepts) := by
  rw [answer_keepIfAccepted, List.filter_cons, List.filter_nil]
  rfl

end Gates

/-! ## The parts of a baseline -/

/-- The candidates for the flags for C. -/
def cCandidates : List String := ["-Wmissing-prototypes", "-Wc++-compat"]

/-- The flags for C++ before any candidate. -/
def plainCxxFlags (tc : Toolchain) (settings : Settings) : List String :=
  tc.cxxLanguageFlags ++ settings.cxxIncludeDirs.map tc.includeFlag

section Parts

variable (tc : Toolchain) (accepts : FlagSet → Bool)

theorem answer_debugFlags : (debugFlags tc).answer accepts =
    tc.debugOptFlags (tc.capabilities.prefersOg && accepts ["-Og"]) ++ ["-DDEBUG"] := by
  simp only [debugFlags, Inquiry.answer_ite, Inquiry.answer_bind, Inquiry.answer_pure,
    Inquiry.answer_check]
  cases tc.capabilities.prefersOg with
  | true => rfl
  | false => rfl

variable {tc}

/-- Of the run-time libraries the first one that is accepted is linked. -/
theorem answer_cxxRuntime {first second : CxxRuntime}
    (asked : tc.capabilities.cxx = .probe first second) :
    ((cxxRuntime tc).answer accepts).1 =
        (accepts (runtimeQuestion first) || accepts (runtimeQuestion second)) ∧
      ((cxxRuntime tc).answer accepts).2 =
        (([first, second].find? fun runtime => accepts (runtimeQuestion runtime)).map
          runtimeFlag).toList := by
  unfold cxxRuntime
  rw [asked]
  simp only [Inquiry.answer_bind, Inquiry.answer_check, List.find?_cons, List.find?_nil]
  rcases Bool.eq_false_or_eq_true (accepts (runtimeQuestion first)) with hfirst | hfirst
  · simp [hfirst]
  · rcases Bool.eq_false_or_eq_true (accepts (runtimeQuestion second)) with hsecond | hsecond
    · simp [hfirst, hsecond]
    · simp [hfirst, hsecond]

theorem answer_firstErrorFlags (gnu : tc.style = .gnu) : (firstErrorFlags tc).answer accepts =
    if tc.capabilities.maxErrorsFlag then ["-fmax-errors=1"]
    else ["-Wfatal-errors"].filter (acceptsAlone accepts) := by
  rw [firstErrorFlags, Inquiry.answer_ite, gnu, answer_keepIfAccepted_eq_filter,
    Inquiry.answer_pure]

/-- What is found out for the GNU style alone. -/
theorem answer_gnuFindings (gnu : tc.style = .gnu) (exe : Path) (env : Environment)
    (cxxFlags : List String) :
    (gnuFindings tc exe env cxxFlags).answer accepts =
      ⟨(if env.ci then [] else (colourCandidates.find? (acceptsAlone accepts)).toList) ++
          (aliasingCandidates.find? (acceptsAlone accepts)).toList ++
          extraCandidates.filter (acceptsAlone accepts),
        joined accepts cxxFlags "-Wzero-as-null-pointer-constant",
        accepts ["-MD", "-MF", exe.text ++ ".d"],
        cCandidates.filter (acceptsAlone accepts)⟩ := by
  have hc : (keepIfAccepted "-Wmissing-prototypes").answer accepts ++
      (keepIfAccepted "-Wc++-compat").answer accepts = cCandidates.filter (acceptsAlone accepts) := by
    rw [answer_keepIfAccepted_eq_filter, answer_keepIfAccepted_eq_filter, ← List.filter_append]
    rfl
  unfold gnuFindings
  rw [Toolchain.depfileProbe, gnu]
  cases env.ci with
  | true =>
    simp only [Inquiry.answer_bind, Inquiry.answer_pure, Inquiry.answer_check, if_true,
      answer_firstAccepted, answer_eachAccepted, ← joined_eq, hc]
    rfl
  | false =>
    simp only [Inquiry.answer_bind, Inquiry.answer_pure, Inquiry.answer_check, Bool.false_eq_true,
      if_false, answer_firstAccepted, answer_eachAccepted, ← joined_eq, hc]
    rfl

/-- The baseline of a compiler of the GNU style. -/
theorem answer_deriveBaseline (gnu : tc.style = .gnu) (exe : Path) (settings : Settings)
    (env : Environment) :
    (deriveBaseline tc exe settings env).answer accepts =
      { cppFlags := tc.warningFlags ++ settings.includeDirs.map tc.includeFlag ++
          [tc.defineFlag (settings.macroName "UNIT_TEST") none] ++
          (if tc.capabilities.maxErrorsFlag then ["-fmax-errors=1"]
            else ["-Wfatal-errors"].filter (acceptsAlone accepts)) ++
          ((if env.ci then [] else (colourCandidates.find? (acceptsAlone accepts)).toList) ++
            (aliasingCandidates.find? (acceptsAlone accepts)).toList ++
            extraCandidates.filter (acceptsAlone accepts)) ++
          if !tc.capabilities.autoRegistration then
            [tc.defineFlag (settings.macroName "MANUAL_UNIT_TEST_REGISTRATION") none]
          else []
        cFlags := cCandidates.filter (acceptsAlone accepts)
        cxxFlags := joined accepts (joined accepts (plainCxxFlags tc settings) "-Wold-style-cast")
          "-Wzero-as-null-pointer-constant"
        ldFlags := ((cxxRuntime tc).answer accepts).2
        debug := joined accepts
          (tc.debugOptFlags (tc.capabilities.prefersOg && accepts ["-Og"]) ++ ["-DDEBUG"])
          "-D_FORTIFY_SOURCE=2"
        release := joined accepts (tc.releaseOptFlags ++ ["-DNDEBUG"]) "-D_FORTIFY_SOURCE=1"
        supportsCxx := ((cxxRuntime tc).answer accepts).1
        depfile := accepts ["-MD", "-MF", exe.text ++ ".d"]
        manualRegistration := !tc.capabilities.autoRegistration } := by
  have language : tc.cLanguageFlags = [] := by rw [Toolchain.cLanguageFlags, gnu]
  have link : tc.baseLinkFlags = [] := by rw [Toolchain.baseLinkFlags, gnu]
  simp only [deriveBaseline, gnu, Inquiry.answer_bind, Inquiry.answer_pure, answer_debugFlags,
    ← joined_eq, answer_gnuFindings accepts gnu, answer_firstErrorFlags accepts gnu, language, link,
    List.nil_append]
  rfl

end Parts

/-! ## Origins -/

/-- The flags that a baseline of the GNU style may have whatever the settings are. -/
def gnuFlags : List String :=
  ["-Wall", "-g", "-Werror", "-fmax-errors=1", "-Wfatal-errors"] ++ colourCandidates ++
    aliasingCandidates ++ extraCandidates ++ cCandidates ++
    ["-Og", "-O0", "-O2", "-Wold-style-cast", "-Wzero-as-null-pointer-constant"]

/-- A flag of one of the origins that the flags of a baseline of the GNU style have. -/
inductive GnuFlag : String → Prop where
  /-- It does not depend on the settings. -/
  | fixed {flag : String} (mem : flag ∈ gnuFlags) : GnuFlag flag
  /-- It searches a directory. -/
  | searches (dir : String) : GnuFlag ("-I" ++ dir)
  /-- It defines a name. -/
  | defines (name : String) : GnuFlag ("-D" ++ name)

/-- All flags of a list are of these origins. -/
def GnuFlags (flags : List String) : Prop := ∀ flag ∈ flags, GnuFlag flag

namespace GnuFlags

variable {l m : List String}

theorem append (hl : GnuFlags l) (hm : GnuFlags m) : GnuFlags (l ++ m) :=
  List.forall_mem_append.2 ⟨hl, hm⟩

theorem of_subset (h : l ⊆ gnuFlags) : GnuFlags l := fun _ hflag => .fixed (h hflag)

theorem searching {tc : Toolchain} (gnu : tc.style = .gnu) (dirs : List Path) :
    GnuFlags (dirs.map tc.includeFlag) := by
  refine List.forall_mem_map.2 fun dir _ => ?_
  rw [Toolchain.includeFlag, gnu]
  exact .searches _

theorem define (tc : Toolchain) (name : String) (value : Option String) :
    GnuFlags [tc.defineFlag name value] := by
  refine List.forall_mem_singleton.2 ?_
  cases value with
  | none => exact .defines _
  | some value =>
    have hflag : tc.defineFlag name (some value) = "-D" ++ (name ++ ("=" ++ value)) := by
      rw [Toolchain.defineFlag, String.append_assoc, String.append_assoc]
    rw [hflag]
    exact .defines _

theorem ite {c : Prop} [Decidable c] (hl : GnuFlags l) (hm : GnuFlags m) :
    GnuFlags (if c then l else m) := by
  split
  · exact hl
  · exact hm

theorem filter (h : GnuFlags l) (p : String → Bool) : GnuFlags (l.filter p) :=
  fun flag hflag => h flag (List.filter_subset_self _ hflag)

theorem find (h : GnuFlags l) (p : String → Bool) : GnuFlags (l.find? p).toList :=
  fun flag hflag => h flag (List.mem_of_find?_eq_some (Option.mem_toList.1 hflag))

theorem joined (accepts : FlagSet → Bool) {flag : String} (h : GnuFlags l) (hflag : GnuFlags [flag]) :
    GnuFlags (joined accepts l flag) := h.append (ite hflag (of_subset (List.nil_subset _)))

end GnuFlags

/-- Where the flags of a baseline come from. -/
structure GnuBaseline (b : Baseline) : Prop where
  cpp : GnuFlags b.cppFlags
  c : GnuFlags b.cFlags
  config : ∀ c, GnuFlags (b.configFlags c)
  /-- Behind the flags that select C++. -/
  cxx : ∃ rest, b.cxxFlags = ["-x", "c++", "-std=c++11", "-Wmissing-declarations"] ++ rest ∧
    GnuFlags rest

theorem gnuBaseline_answer {tc : Toolchain} (accepts : FlagSet → Bool) (gnu : tc.style = .gnu)
    (exe : Path) (settings : Settings) (env : Environment) :
    GnuBaseline ((deriveBaseline tc exe settings env).answer accepts) := by
  have warnings : GnuFlags tc.warningFlags := by
    rw [Toolchain.warningFlags, gnu]
    exact .append (.of_subset (by decide)) (.ite (.of_subset (by decide)) (.of_subset (by decide)))
  have extra : GnuFlags extraCandidates := .of_subset (by decide)
  have colour : GnuFlags colourCandidates := .of_subset (by decide)
  have aliasing : GnuFlags aliasingCandidates := .of_subset (by decide)
  have debug : ∀ useOg, GnuFlags (tc.debugOptFlags useOg ++ ["-DDEBUG"]) := by
    intro useOg
    rw [Toolchain.debugOptFlags, gnu]
    refine .append (.of_subset ?_) (.define tc "DEBUG" none)
    cases useOg <;> decide
  have release : GnuFlags (tc.releaseOptFlags ++ ["-DNDEBUG"]) := by
    rw [Toolchain.releaseOptFlags, gnu]
    exact .append (.of_subset (by decide)) (.define tc "NDEBUG" none)
  have nothing : GnuFlags [] := .of_subset (List.nil_subset _)
  rw [answer_deriveBaseline accepts gnu]
  refine ⟨?_, .filter (.of_subset (by decide)) _, fun config => ?_, ?_⟩
  · refine .append (.append (.append (.append (.append warnings (.searching gnu _))
      (.define tc _ none)) (.ite (.of_subset (by decide)) (.filter (.of_subset (by decide)) _))) ?_)
      (.ite (.define tc _ none) nothing)
    exact .append (.append (.ite nothing (.find colour _)) (.find aliasing _)) (.filter extra _)
  · cases config with
    | debug => exact .joined accepts (debug _) (.define tc "_FORTIFY_SOURCE" (some "2"))
    | release => exact .joined accepts release (.define tc "_FORTIFY_SOURCE" (some "1"))
  · have plain : plainCxxFlags tc settings =
        ["-x", "c++", "-std=c++11", "-Wmissing-declarations"] ++
          settings.cxxIncludeDirs.map tc.includeFlag := by
      rw [plainCxxFlags, Toolchain.cxxLanguageFlags, gnu]
    obtain ⟨old, hold, hsub⟩ :=
      exists_joined accepts (plainCxxFlags tc settings) "-Wold-style-cast"
    obtain ⟨zero, hzero, hsub'⟩ := exists_joined accepts
      (joined accepts (plainCxxFlags tc settings) "-Wold-style-cast") "-Wzero-as-null-pointer-constant"
    refine ⟨settings.cxxIncludeDirs.map tc.includeFlag ++ (old ++ zero), ?_,
      .append (.searching gnu _) (.append (.of_subset ?_) (.of_subset ?_))⟩
    · refine (hzero.trans (by rw [hold, plain])).trans ?_
      rw [List.append_assoc, List.append_assoc]
    · exact List.Subset.trans hsub (by decide)
    · exact List.Subset.trans hsub' (by decide)

end BuildMatrix
