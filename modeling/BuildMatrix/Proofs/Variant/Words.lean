import BuildMatrix.Proofs.Text.Words
import BuildMatrix.Proofs.Variant.Standards

/-!
# Which flags of a plan are words

Most flags of a plan are fixed texts without spaces.  The others have a part that comes from
the settings: a directory that is searched for headers, or the start of a preprocessor name.
A directory or start with a space makes a flag that is not a single word.

The flags that all variants share hold every directory for headers and the start of names, so
they are words exactly if all of these are unbroken (`BaselineWords`).  The flags for the
languages may hold the directories for C++ besides, and the flags of the linker repeat the
shared ones for link-time optimisation in the GNU style.  All that a variant adds are words
(`PlannedWords`).
-/

namespace BuildMatrix

open Text

/-! ## Flags with an argument -/

/-- The flags are single words. -/
def Wordy (flags : List String) : Prop := ∀ flag ∈ flags, Word flag

instance (flags : List String) : Decidable (Wordy flags) :=
  inferInstanceAs (Decidable (∀ flag ∈ flags, Word flag))

@[simp] theorem wordy_append {l m : List String} : Wordy (l ++ m) ↔ Wordy l ∧ Wordy m :=
  List.forall_mem_append

@[simp] theorem wordy_cons {flag : String} {l : List String} :
    Wordy (flag :: l) ↔ Word flag ∧ Wordy l := List.forall_mem_cons

@[simp] theorem wordy_nil : Wordy [] := List.forall_mem_nil Word

namespace Toolchain

variable (tc : Toolchain)

@[simp] theorem word_includeFlag (dir : Path) : Word (tc.includeFlag dir) ↔ Unbroken dir.text := by
  unfold includeFlag
  cases tc.style with
  | gnu => exact word_append (by decide)
  | msvc => exact word_append (by decide)

theorem word_defineFlag_none (name : String) : Word (tc.defineFlag name none) ↔ Unbroken name :=
  word_append (by decide)

theorem word_defineFlag_some (name value : String) :
    Word (tc.defineFlag name (some value)) ↔ Unbroken name ∧ Unbroken value := by
  have hequal : Unbroken "=" := by decide
  have hflag : tc.defineFlag name (some value) = "-D" ++ (name ++ ("=" ++ value)) := by
    rw [defineFlag, String.append_assoc, String.append_assoc]
  rw [hflag, word_append (by decide), unbroken_append, unbroken_append, and_iff_right hequal]

@[simp] theorem wordy_map_includeFlag (dirs : List Path) :
    Wordy (dirs.map tc.includeFlag) ↔ ∀ dir ∈ dirs, Unbroken dir.text := by
  unfold Wordy
  rw [List.forall_mem_map]
  exact forall₂_congr fun dir _ => tc.word_includeFlag dir

end Toolchain

/-- A name that the harness gives a meaning is unbroken exactly if the start of such names is. -/
theorem unbroken_macroName (settings : Settings) {suffix : String} (h : Unbroken suffix) :
    Unbroken (settings.macroName suffix) ↔ Unbroken settings.macroPrefix := by
  unfold Settings.macroName
  split
  · next hempty =>
    rw [hempty]
    exact iff_of_true h (by decide)
  · have hunderscore : Unbroken "_" := by decide
    rw [unbroken_append, unbroken_append, and_iff_left h, and_iff_left hunderscore]

/-- What the settings put into the flags of all compilations is unbroken. -/
structure Settings.Unspaced (settings : Settings) : Prop where
  /-- The directories that all compilations search for headers. -/
  includeDirs : ∀ dir ∈ settings.includeDirs, Unbroken dir.text
  /-- The start of the names that the harness gives a meaning. -/
  macroPrefix : Unbroken settings.macroPrefix

/-! ## The baseline -/

/-- The flags are words, or they search one of the directories. -/
def FromDirs (tc : Toolchain) (dirs : List Path) (flags : List String) : Prop :=
  ∀ flag ∈ flags, Word flag ∨ ∃ dir ∈ dirs, flag = tc.includeFlag dir

theorem Wordy.fromDirs {tc : Toolchain} {dirs : List Path} {flags : List String} (h : Wordy flags) :
    FromDirs tc dirs flags := fun flag hflag => .inl (h flag hflag)

theorem FromDirs.append {tc : Toolchain} {dirs : List Path} {l m : List String}
    (hl : FromDirs tc dirs l) (hm : FromDirs tc dirs m) : FromDirs tc dirs (l ++ m) :=
  List.forall_mem_append.2 ⟨hl, hm⟩

/-- They are words exactly if the directories among them are unbroken. -/
theorem FromDirs.wordy_iff {tc : Toolchain} {dirs : List Path} {flags : List String}
    (h : FromDirs tc dirs flags) :
    Wordy flags ↔ ∀ dir ∈ dirs, tc.includeFlag dir ∈ flags → Unbroken dir.text := by
  constructor
  · exact fun hwords dir _ hmem => (tc.word_includeFlag dir).1 (hwords _ hmem)
  · intro hdirs flag hflag
    rcases h flag hflag with hword | ⟨dir, hdir, rfl⟩
    · exact hword
    · exact (tc.word_includeFlag dir).2 (hdirs dir hdir hflag)

/-- The flag of the GNU style for link-time optimisation. -/
def ltoFlag : String := "-flto"

/-- The flags are words, and none asks for link-time optimisation in the GNU style. -/
def LinkWords (flags : List String) : Prop := ∀ flag ∈ flags, Word flag ∧ flag ≠ ltoFlag

instance (flags : List String) : Decidable (LinkWords flags) :=
  inferInstanceAs (Decidable (∀ flag ∈ flags, Word flag ∧ flag ≠ ltoFlag))

theorem LinkWords.append {l m : List String} (hl : LinkWords l) (hm : LinkWords m) :
    LinkWords (l ++ m) := List.forall_mem_append.2 ⟨hl, hm⟩

/-- Which flags of a baseline are words. -/
structure BaselineWords (tc : Toolchain) (settings : Settings) (b : Baseline) : Prop where
  /-- The flags that all variants share are, if what the settings put into them is unbroken. -/
  cpp : Wordy b.cppFlags ↔ settings.Unspaced
  /-- The flags for C are. -/
  c : Wordy b.cFlags
  /-- The flags for C++ are, but for those of the directories for C++. -/
  cxx : FromDirs tc settings.cxxIncludeDirs b.cxxFlags
  /-- The flags of the configurations are. -/
  config : ∀ c, Wordy (b.configFlags c)
  /-- The flags for the linker are. -/
  ld : LinkWords b.ldFlags

section Baseline

variable (tc : Toolchain) (verdict : FlagSet → Bool)

theorem wordy_debugFlags : Wordy ((debugFlags tc).answer verdict) := by
  have hflags : ∀ useOg, Wordy (tc.debugOptFlags useOg ++ [tc.defineFlag "DEBUG" none]) := by
    intro useOg
    have hopt : Wordy (tc.debugOptFlags useOg) := by
      unfold Toolchain.debugOptFlags
      cases tc.style <;> cases useOg <;> decide
    have hdefine : Word (tc.defineFlag "DEBUG" none) := (tc.word_defineFlag_none _).2 (by decide)
    simp [hopt, hdefine]
  simp only [debugFlags, Inquiry.answer_ite, Inquiry.answer_bind, Inquiry.answer_pure]
  split
  · exact hflags _
  · exact hflags _

theorem wordy_releaseFlags : Wordy (releaseFlags tc) := by
  have hopt : Wordy tc.releaseOptFlags := by
    unfold Toolchain.releaseOptFlags
    cases tc.style <;> decide
  have hdefine : Word (tc.defineFlag "NDEBUG" none) := (tc.word_defineFlag_none _).2 (by decide)
  simp [releaseFlags, hopt, hdefine]

theorem wordy_firstErrorFlags : Wordy ((firstErrorFlags tc).answer verdict) := by
  unfold firstErrorFlags
  rw [Inquiry.answer_ite]
  split
  · exact show Wordy ["-fmax-errors=1"] by decide
  · cases tc.style with
    | gnu => exact forall_keepIfAccepted verdict (by decide)
    | msvc => exact wordy_nil

theorem linkWords_cxxRuntime : LinkWords ((cxxRuntime tc).answer verdict).2 := by
  have hnone : LinkWords [] := List.forall_mem_nil _
  unfold cxxRuntime
  cases tc.capabilities.cxx with
  | always => exact hnone
  | never => exact hnone
  | probe first second =>
    have hruntime : ∀ runtime, LinkWords [runtimeFlag runtime] := by
      intro runtime
      cases runtime <;> decide
    simp only [Inquiry.answer_bind, Inquiry.answer_ite]
    split
    · exact hruntime first
    · split
      · exact hruntime second
      · exact hnone

/-- What is found out for the GNU style are words, but for flags for C++ that were there before. -/
theorem words_gnuFindings {tc : Toolchain} (gnu : tc.style = .gnu) (exe : Path) (env : Environment)
    {dirs : List Path} {cxxFlags : List String} (cxx : FromDirs tc dirs cxxFlags) :
    Wordy ((gnuFindings tc exe env cxxFlags).answer verdict).cppFlags ∧
      Wordy ((gnuFindings tc exe env cxxFlags).answer verdict).cFlags ∧
      FromDirs tc dirs ((gnuFindings tc exe env cxxFlags).answer verdict).cxxFlags := by
  have colour : Wordy ((firstAccepted colourCandidates).answer verdict) :=
    forall_firstAccepted verdict (show Wordy colourCandidates by decide)
  have aliasing : Wordy ((firstAccepted aliasingCandidates).answer verdict) :=
    forall_firstAccepted verdict (show Wordy aliasingCandidates by decide)
  have extra : Wordy ((eachAccepted extraCandidates).answer verdict) :=
    forall_eachAccepted verdict (show Wordy extraCandidates by decide)
  have prototypes : Wordy ((keepIfAccepted "-Wmissing-prototypes").answer verdict) :=
    forall_keepIfAccepted verdict (by decide)
  have compat : Wordy ((keepIfAccepted "-Wc++-compat").answer verdict) :=
    forall_keepIfAccepted verdict (by decide)
  have cxx' : FromDirs tc dirs
      ((extendIfAccepted cxxFlags "-Wzero-as-null-pointer-constant").answer verdict) :=
    forall_extendIfAccepted verdict cxx (.inl (by decide))
  unfold gnuFindings
  rw [Toolchain.depfileProbe, gnu]
  cases env.ci with
  | true =>
    simp only [Inquiry.answer_bind, Inquiry.answer_pure, if_true, wordy_append]
    exact ⟨⟨⟨wordy_nil, aliasing⟩, extra⟩, ⟨prototypes, compat⟩, cxx'⟩
  | false =>
    simp only [Inquiry.answer_bind, Inquiry.answer_pure, Bool.false_eq_true, if_false, wordy_append]
    exact ⟨⟨⟨colour, aliasing⟩, extra⟩, ⟨prototypes, compat⟩, cxx'⟩

/-- The flags that all variants share, with whatever words were found out. -/
theorem wordy_cppFlags_iff (settings : Settings) (manual : Bool) {firstError found : List String}
    (hfirst : Wordy firstError) (hfound : Wordy found) :
    Wordy (tc.warningFlags ++ settings.includeDirs.map tc.includeFlag ++
        [tc.defineFlag (settings.macroName "UNIT_TEST") none] ++ firstError ++ found ++
        if manual then
          [tc.defineFlag (settings.macroName "MANUAL_UNIT_TEST_REGISTRATION") none]
        else []) ↔ settings.Unspaced := by
  have warnings : Wordy tc.warningFlags := by
    unfold Toolchain.warningFlags
    cases tc.style <;> cases tc.capabilities.warningsAsErrors <;> decide
  have define : ∀ suffix, Unbroken suffix →
      (Wordy [tc.defineFlag (settings.macroName suffix) none] ↔ Unbroken settings.macroPrefix) :=
    fun suffix hsuffix => List.forall_mem_singleton.trans
      ((tc.word_defineFlag_none _).trans (unbroken_macroName settings hsuffix))
  rw [wordy_append, wordy_append, wordy_append, wordy_append, wordy_append,
    tc.wordy_map_includeFlag, define "UNIT_TEST" (by decide)]
  constructor
  · rintro ⟨⟨⟨⟨⟨-, hdirs⟩, hstart⟩, -⟩, -⟩, -⟩
    exact ⟨hdirs, hstart⟩
  · rintro ⟨hdirs, hstart⟩
    refine ⟨⟨⟨⟨⟨warnings, hdirs⟩, hstart⟩, hfirst⟩, hfound⟩, ?_⟩
    split
    · exact (define _ (by decide)).2 hstart
    · exact wordy_nil

theorem baselineWords_answer (exe : Path) (settings : Settings) (env : Environment) :
    BaselineWords tc settings ((deriveBaseline tc exe settings env).answer verdict) := by
  have language : FromDirs tc settings.cxxIncludeDirs ((extendIfAccepted
      (tc.cxxLanguageFlags ++ settings.cxxIncludeDirs.map tc.includeFlag)
      "-Wold-style-cast").answer verdict) := by
    refine forall_extendIfAccepted verdict (FromDirs.append (Wordy.fromDirs ?_) ?_)
      (.inl (by decide))
    · unfold Toolchain.cxxLanguageFlags
      cases tc.style <;> decide
    · exact List.forall_mem_map.2 fun dir hdir => .inr ⟨dir, hdir, rfl⟩
  have c : Wordy tc.cLanguageFlags := by
    unfold Toolchain.cLanguageFlags
    cases tc.style <;> decide
  have ld : LinkWords tc.baseLinkFlags := by
    unfold Toolchain.baseLinkFlags
    cases tc.style <;> decide
  have define : ∀ value, Unbroken value →
      Word (tc.defineFlag "_FORTIFY_SOURCE" (some value)) := fun value hvalue =>
    (tc.word_defineFlag_some _ _).2 ⟨by decide, hvalue⟩
  have config : ∀ b : Baseline, b.debug = (extendIfAccepted ((debugFlags tc).answer verdict)
        (tc.defineFlag "_FORTIFY_SOURCE" (some "2"))).answer verdict →
      b.release = (extendIfAccepted (releaseFlags tc)
        (tc.defineFlag "_FORTIFY_SOURCE" (some "1"))).answer verdict →
      ∀ c, Wordy (b.configFlags c) := by
    intro b hdebug hrelease c
    cases c with
    | debug =>
      show Wordy b.debug
      rw [hdebug]
      exact forall_extendIfAccepted verdict (wordy_debugFlags tc verdict) (define _ (by decide))
    | release =>
      show Wordy b.release
      rw [hrelease]
      exact forall_extendIfAccepted verdict (wordy_releaseFlags tc) (define _ (by decide))
  cases hstyle : tc.style with
  | gnu =>
    obtain ⟨cpp, c', cxx⟩ := words_gnuFindings verdict hstyle exe env language
    simp only [deriveBaseline, hstyle, Inquiry.answer_bind, Inquiry.answer_pure]
    exact ⟨wordy_cppFlags_iff tc settings _ (wordy_firstErrorFlags tc verdict) cpp,
      wordy_append.2 ⟨c, c'⟩, cxx, config _ rfl rfl, ld.append (linkWords_cxxRuntime tc verdict)⟩
  | msvc =>
    simp only [deriveBaseline, hstyle, Inquiry.answer_bind, Inquiry.answer_pure]
    exact ⟨wordy_cppFlags_iff tc settings _ (wordy_firstErrorFlags tc verdict) wordy_nil,
      wordy_append.2 ⟨c, wordy_nil⟩, language, config _ rfl rfl,
      ld.append (linkWords_cxxRuntime tc verdict)⟩

end Baseline

/-! ## Flavours -/

/-- Which flags of a flavour are words. -/
structure FlavourWords (tc : Toolchain) (settings : Settings) (f : Flavour) : Prop where
  c : FromDirs tc settings.cxxIncludeDirs f.cFlags
  cxx : FromDirs tc settings.cxxIncludeDirs f.cxxFlags
  overrides : Unbroken settings.macroPrefix → Wordy f.overrides
  ld : LinkWords f.ldFlags

namespace FlavourWords

variable {tc : Toolchain} {settings : Settings} {b : Baseline} {f : Flavour} {flags : List String}

theorem plain (base : BaselineWords tc settings b) : FlavourWords tc settings (.plain b) :=
  ⟨base.c.fromDirs, base.cxx, fun _ => wordy_nil, base.ld⟩

theorem withC (words : FlavourWords tc settings f) (h : Wordy flags) :
    FlavourWords tc settings (f.withC flags) :=
  { words with c := words.c.append h.fromDirs }

theorem withCxx (words : FlavourWords tc settings f)
    (h : FromDirs tc settings.cxxIncludeDirs flags) : FlavourWords tc settings (f.withCxx flags) :=
  { words with cxx := h }

theorem allCxx (words : FlavourWords tc settings f)
    (h : FromDirs tc settings.cxxIncludeDirs flags) : FlavourWords tc settings (f.allCxx flags) :=
  { words with c := h, cxx := h }

theorem overriding (words : FlavourWords tc settings f)
    (h : Unbroken settings.macroPrefix → Wordy flags) :
    FlavourWords tc settings (f.overriding flags) :=
  { words with overrides := fun hstart => wordy_append.2 ⟨words.overrides hstart, h hstart⟩ }

theorem linking (words : FlavourWords tc settings f) (h : LinkWords flags) :
    FlavourWords tc settings (f.linking flags) :=
  { words with ld := words.ld.append h }

end FlavourWords

/-! ## Variants -/

/-- Which flags of a planned variant are words. -/
structure PlannedWords (tc : Toolchain) (settings : Settings) (v : Variant) : Prop where
  /-- Those of all compilations are, if what the settings put into them is unbroken. -/
  cpp : Wordy v.cppFlags ↔ settings.Unspaced
  /-- Those for a language are, but for those of the directories for C++. -/
  language : ∀ language, FromDirs tc settings.cxxIncludeDirs (v.languageFlags language)
  /-- Those that override them are, if the start of names is unbroken. -/
  overrides : Unbroken settings.macroPrefix → Wordy v.overrides
  /-- Those of the configuration are. -/
  config : Wordy v.configFlags
  /-- Those for the linker are, unless they repeat those of all compilations. -/
  ld : LinkWords v.ldFlags ∨ ltoFlag ∈ v.ldFlags ∧ v.cppFlags ⊆ v.ldFlags ∧
    ∀ flag ∈ v.ldFlags, Word flag ∨ flag ∈ v.cppFlags

namespace PlannedWords

variable {tc : Toolchain} {settings : Settings} {b : Baseline}

theorem variant (base : BaselineWords tc settings b) {f : Flavour}
    (words : FlavourWords tc settings f) {name : String} {configFlags : List String}
    (config : Wordy configFlags) : PlannedWords tc settings (f.variant b name configFlags) where
  cpp := base.cpp
  language language := by
    cases language with
    | c => exact words.c
    | cxx => exact words.cxx
  overrides := words.overrides
  config := config
  ld := .inl words.ld

theorem pair (base : BaselineWords tc settings b) {f : Flavour}
    (words : FlavourWords tc settings f) (family : String) :
    ∀ v ∈ f.pair b family, PlannedWords tc settings v := by
  intro v hv
  obtain ⟨c, -, rfl⟩ := List.mem_map.1 hv
  exact variant base words (base.config c)

/-- A part that is there on a condition. -/
theorem ite {l : List Variant} (h : ∀ v ∈ l, PlannedWords tc settings v) (c : Prop) [Decidable c] :
    ∀ v ∈ if c then l else [], PlannedWords tc settings v := by
  split
  · exact h
  · exact List.forall_mem_nil _

theorem append {l m : List Variant} (hl : ∀ v ∈ l, PlannedWords tc settings v)
    (hm : ∀ v ∈ m, PlannedWords tc settings v) : ∀ v ∈ l ++ m, PlannedWords tc settings v :=
  List.forall_mem_append.2 ⟨hl, hm⟩

theorem ltoPair (base : BaselineWords tc settings b) :
    ∀ v ∈ ltoPair b, PlannedWords tc settings v := by
  have release : Wordy (b.release.map fun flag => if flag = "-O2" then "-O3" else flag) := by
    refine List.forall_mem_map.2 fun flag hflag => ?_
    split
    · decide
    · exact base.config .release flag hflag
  have lto : ∀ {c : Configuration} {configFlags : List String}, Wordy configFlags →
      PlannedWords tc settings
        { ((Flavour.plain b).overriding ["-flto"]).variant b (variantName "lto" c) configFlags with
          ldFlags := b.cppFlags ++ ["-flto"] ++ configFlags ++ b.ldFlags } := by
    intro c configFlags config
    have words : FlavourWords tc settings ((Flavour.plain b).overriding ["-flto"]) :=
      (FlavourWords.plain base).overriding fun _ => by decide
    have planned : PlannedWords tc settings
        (((Flavour.plain b).overriding ["-flto"]).variant b (variantName "lto" c) configFlags) :=
      variant base words config
    refine { planned with ld := .inr ⟨?_, ?_, ?_⟩ }
    · simp [ltoFlag]
    · intro flag hflag
      simp only [List.mem_append]
      exact .inl (.inl (.inl hflag))
    · -- what follows the flags of all compilations are words
      have hrest : Wordy (["-flto"] ++ configFlags ++ b.ldFlags) :=
        wordy_append.2 ⟨wordy_append.2 ⟨by decide, config⟩, fun flag hflag => (base.ld flag hflag).1⟩
      intro flag hflag
      rw [List.append_assoc, List.append_assoc, ← List.append_assoc ["-flto"]] at hflag
      exact (List.mem_append.1 hflag).elim .inr fun hflag => .inl (hrest flag hflag)
  intro v hv
  obtain ⟨c, -, rfl⟩ := List.mem_map.1 hv
  cases c with
  | debug => exact lto (base.config .debug)
  | release => exact lto release

theorem jemallocFamily (base : BaselineWords tc settings b) (host : Host) :
    ∀ v ∈ jemallocFamily tc b host settings, PlannedWords tc settings v := by
  refine ite (pair base (((FlavourWords.plain base).overriding fun hstart => ?_).linking
    (by decide)) "jemalloc") _
  have hone : Unbroken "1" := by decide
  have hname : Unbroken (settings.macroName "JEMALLOC") :=
    (unbroken_macroName settings (by decide)).2 hstart
  exact List.forall_mem_singleton.2 ((tc.word_defineFlag_some _ _).2 ⟨hname, hone⟩)

theorem valgrindFamily (base : BaselineWords tc settings b) (host : Host) :
    ∀ v ∈ valgrindFamily b host settings, PlannedWords tc settings v := by
  refine ite (List.forall_mem_singleton.2 ?_) _
  have planned : PlannedWords tc settings
      ((Flavour.plain b).variant b (variantName "valgrind" .debug) (b.configFlags .debug)) :=
    variant base (FlavourWords.plain base) (base.config .debug)
  exact { planned with }

variable (accepts : FlagSet → Bool)

/-- Flags for C++ from which one was taken out, with others in its place. -/
theorem fromDirs_filter (base : BaselineWords tc settings b) (keep : String → Bool)
    {flags : List String} (h : Wordy flags) :
    FromDirs tc settings.cxxIncludeDirs (b.cxxFlags.filter keep ++ flags) :=
  FromDirs.append (fun flag hflag => base.cxx flag (List.mem_of_mem_filter hflag)) h.fromDirs

theorem msvcFamilies (base : BaselineWords tc settings b) :
    ∀ v ∈ (msvcFamilies b).answer accepts, PlannedWords tc settings v := by
  have plain := FlavourWords.plain base
  have cxx17 : FromDirs tc settings.cxxIncludeDirs (b.cxxFlags ++ ["/std:c++17"]) :=
    base.cxx.append (Wordy.fromDirs (by decide))
  have noUnwind : FromDirs tc settings.cxxIncludeDirs (b.cxxFlags.filter (· ≠ "/EHsc")) :=
    fun flag hflag => base.cxx flag (List.mem_of_mem_filter hflag)
  simp only [BuildMatrix.msvcFamilies, Inquiry.answer_bind, Inquiry.answer_check,
    Inquiry.answer_pure]
  exact append (append (append (append
    (pair base ((plain.overriding fun _ => by decide).linking (by decide)) _)
    (pair base (plain.allCxx base.cxx) _))
    (ite (pair base (plain.allCxx cxx17) _) _))
    (pair base (plain.allCxx noUnwind) _))
    (ite (pair base (plain.allCxx (fromDirs_filter base _ (by decide))) _) _)

theorem gnuCxxFamilies (base : BaselineWords tc settings b) (hasC11 : Bool) :
    ∀ v ∈ (gnuCxxFamilies b hasC11).answer accepts, PlannedWords tc settings v := by
  have plain := FlavourWords.plain base
  have instead : ∀ {flags : List String}, Wordy flags → FromDirs tc settings.cxxIncludeDirs
      (b.cxxFlags.filter (· ≠ "-std=c++11") ++ flags) := fromDirs_filter base _
  simp only [BuildMatrix.gnuCxxFamilies, Inquiry.answer_bind, Inquiry.answer_check,
    Inquiry.answer_pure]
  exact append (append (append
    (ite (pair base ((plain.withC (by decide)).withCxx (instead (by decide))) _) _)
    (pair base (plain.allCxx (instead (by decide))) _))
    (ite (pair base (plain.allCxx (instead (by decide))) _) _))
    (ite (pair base (plain.allCxx (instead (by decide))) _) _)

theorem gnuFamilies (base : BaselineWords tc settings b) :
    ∀ v ∈ (gnuFamilies b).answer accepts, PlannedWords tc settings v := by
  have plain := FlavourWords.plain base
  have withC : ∀ {flags : List String} (family : String), Wordy flags →
      ∀ v ∈ ((Flavour.plain b).withC flags).pair b family, PlannedWords tc settings v :=
    fun family h => pair base (plain.withC h) family
  have hfirst : ∀ v ∈
      (if accepts ["-std=gnu89", "-Wno-pedantic"] = true then
          ((Flavour.plain b).withC ["-std=gnu89", "-Wno-pedantic"]).pair b "gnu89" else []) ++
        (if accepts ["-std=c11"] = true then
          ((Flavour.plain b).withC ["-std=c11"]).pair b "c11" else []) ++
        (if accepts ["-std=c99"] = true then
          ((Flavour.plain b).withC ["-std=c99"]).pair b "c99" else []) ++
        if accepts ["-flto"] = true then BuildMatrix.ltoPair b else [],
      PlannedWords tc settings v :=
    append (append (append (ite (withC _ (by decide)) _) (ite (withC _ (by decide)) _))
      (ite (withC _ (by decide)) _)) (ite (ltoPair base) _)
  simp only [BuildMatrix.gnuFamilies, Inquiry.answer_bind, Inquiry.answer_check,
    Inquiry.answer_pure, Inquiry.answer_ite]
  split
  · exact append hfirst (gnuCxxFamilies accepts base _)
  · exact append hfirst (List.forall_mem_nil _)

theorem matrixVariants (base : BaselineWords tc settings b) (host : Host) :
    ∀ v ∈ (matrixVariants tc b host settings).answer accepts, PlannedWords tc settings v := by
  have hnone : ∀ v ∈ ([] : List Variant), PlannedWords tc settings v := List.forall_mem_nil _
  have around : ∀ {l m : List Variant}, (∀ v ∈ l, PlannedWords tc settings v) →
      (∀ v ∈ m, PlannedWords tc settings v) →
      ∀ v ∈ (Flavour.plain b).pair b "default" ++ l ++ m ++
          BuildMatrix.jemallocFamily tc b host settings ++
          BuildMatrix.valgrindFamily b host settings,
        PlannedWords tc settings v := fun hl hm =>
    append (append (append (append (pair base (FlavourWords.plain base) "default") hl) hm)
      (jemallocFamily base host)) (valgrindFamily base host)
  simp only [BuildMatrix.matrixVariants, Inquiry.answer_bind, Inquiry.answer_pure,
    Inquiry.answer_ite]
  -- the families for Visual C++, then those of the GNU style
  split
  · split
    · exact around (msvcFamilies accepts base) (gnuFamilies accepts base)
    · exact around (msvcFamilies accepts base) hnone
  · split
    · exact around hnone (gnuFamilies accepts base)
    · exact around hnone hnone

end PlannedWords

/-- Which flags of the variants of a plan are words, whatever the compiler accepts. -/
theorem plannedWords_answer {tc : Toolchain} {exe : Path} {settings : Settings} {env : Environment}
    {host : Host} {accepts : FlagSet → Bool} {v : Variant}
    (hv : v ∈ ((planVariants tc exe settings env host).answer accepts).2.toList) :
    PlannedWords tc settings v := by
  have base : BaselineWords tc settings ((planVariants tc exe settings env host).answer accepts).1 := by
    unfold planVariants
    simp only [Inquiry.answer_bind, Inquiry.answer_pure]
    exact baselineWords_answer tc accepts exe settings env
  rw [answer_planVariants, buildMatrix_eq, Inquiry.answer_bind, Inquiry.answer_pure] at hv
  exact PlannedWords.matrixVariants accepts base host v (VariantSet.mem_of_mem_toList_ofList hv)

end BuildMatrix
