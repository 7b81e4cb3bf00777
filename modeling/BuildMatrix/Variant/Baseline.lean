import BuildMatrix.Compiler.Dialect
import BuildMatrix.Probe.Inquiry
import BuildMatrix.Settings
import BuildMatrix.Variant

/-!
# The baseline

The flags that all variants share are found out once.  Some a compiler of the
style always takes.  The rest are candidates, and each is asked about before it
is used.  A candidate is asked about on its own, together with the list that it
would join, or as the first of several that will do; `keepIfAccepted`,
`extendIfAccepted` and `firstAccepted` are these three ways.

The order of the questions is fixed, and so is the place of each flag in its
list.
-/

namespace BuildMatrix

/-! ## Ways to ask -/

/-- The flag, if it is accepted on its own. -/
def keepIfAccepted (flag : String) : Inquiry (List String) := do
  return if ← Inquiry.check [flag] then [flag] else []

/-- The list with a flag at its end, if the list is accepted with it, otherwise the list. -/
def extendIfAccepted (list : List String) (flag : String) : Inquiry (List String) := do
  return if ← Inquiry.check (list ++ [flag]) then list ++ [flag] else list

/-- The first of the flags that is accepted on its own, if there is one. -/
def firstAccepted : List String → Inquiry (List String)
  | [] => return []
  | flag :: rest => do if ← Inquiry.check [flag] then pure [flag] else firstAccepted rest
termination_by structural flags => flags

/-- The flags that are accepted, each on its own. -/
def eachAccepted : List String → Inquiry (List String)
  | [] => return []
  | flag :: rest => do return (← keepIfAccepted flag) ++ (← eachAccepted rest)
termination_by structural flags => flags

/-! ## Candidates -/

/-- The flags for coloured messages, which survive a build tool that catches them. -/
def colourCandidates : List String := ["-fdiagnostics-color=always", "-fcolor-diagnostics"]

/-- The flags for warnings about aliasing, the strictest first. -/
def aliasingCandidates : List String :=
  ["-Wstrict-aliasing=3", "-Wstrict-aliasing=2", "-Wstrict-aliasing"]

/-- Further warnings and safeguards. -/
def extraCandidates : List String :=
  ["-Wextra", "-Wpedantic", "-Wmissing-variable-declarations", "-Wfloat-conversion",
   "-Wconversion", "-Wundef", "-Wshadow", "-Wcast-qual", "-fPIC", "-fstrict-aliasing",
   "-fno-omit-frame-pointer"]

/-- The question whether C++ works with a run-time library. -/
def runtimeQuestion (runtime : CxxRuntime) : FlagSet := ["-x", "c++", "-Wl,-l" ++ runtime.name]

/-- The link flag for a run-time library. -/
def runtimeFlag (runtime : CxxRuntime) : String := "-l" ++ runtime.name

/-! ## The baseline -/

/-- The flags that all variants share, and what was found out on the way. -/
structure Baseline where
  cppFlags : List String := []
  cFlags : List String := []
  cxxFlags : List String := []
  ldFlags : List String := []
  /-- The flags of debug builds. -/
  debug : List String := []
  /-- The flags of release builds. -/
  release : List String := []
  /-- Whether C++ can be compiled and linked. -/
  supportsCxx : Bool := false
  /-- Whether the compiler writes dependency files. -/
  depfile : Bool := false
  /-- Whether unit tests have to be collected in a generated file. -/
  manualRegistration : Bool := false
  deriving DecidableEq, Inhabited

def Baseline.configFlags (b : Baseline) : Configuration → List String
  | .debug => b.debug
  | .release => b.release

/-- The debug flags, with `-Og` only where it is wanted and accepted. -/
def debugFlags (tc : Toolchain) : Inquiry (List String) := do
  let useOg ← if tc.capabilities.prefersOg then Inquiry.check ["-Og"] else pure false
  return tc.debugOptFlags useOg ++ [tc.defineFlag "DEBUG" none]

def releaseFlags (tc : Toolchain) : List String :=
  tc.releaseOptFlags ++ [tc.defineFlag "NDEBUG" none]

/-- The flag that ends a compilation at its first error. -/
def firstErrorFlags (tc : Toolchain) : Inquiry (List String) :=
  if tc.capabilities.maxErrorsFlag then return ["-fmax-errors=1"]
  else
    match tc.style with
    | .gnu => keepIfAccepted "-Wfatal-errors"
    | .msvc => return []

/-- Whether C++ is supported, and the link flags for it. -/
def cxxRuntime (tc : Toolchain) : Inquiry (Bool × List String) :=
  match tc.capabilities.cxx with
  | .always => return (true, [])
  | .never => return (false, [])
  | .probe first second => do
      if ← Inquiry.check (runtimeQuestion first) then pure (true, [runtimeFlag first])
      else if ← Inquiry.check (runtimeQuestion second) then pure (true, [runtimeFlag second])
      else pure (false, [])

/-- What is found out for the GNU style alone. -/
structure GnuFindings where
  /-- Further flags of every compilation. -/
  cppFlags : List String
  cxxFlags : List String
  /-- Whether the compiler writes dependency files. -/
  depfile : Bool
  cFlags : List String

/-- Find out what concerns the GNU style alone.  Messages are not coloured under continuous
integration. -/
def gnuFindings (tc : Toolchain) (exe : Path) (env : Environment) (cxxFlags : List String) :
    Inquiry GnuFindings := do
  let colour ← if env.ci then pure [] else firstAccepted colourCandidates
  let aliasing ← firstAccepted aliasingCandidates
  let extra ← eachAccepted extraCandidates
  let cxxFlags ← extendIfAccepted cxxFlags "-Wzero-as-null-pointer-constant"
  let depfile ← match tc.depfileProbe ⟨exe.text ++ ".d"⟩ with
    | some flags => Inquiry.check flags
    | none => pure false
  let prototypes ← keepIfAccepted "-Wmissing-prototypes"
  let compat ← keepIfAccepted "-Wc++-compat"
  return ⟨colour ++ aliasing ++ extra, cxxFlags, depfile, prototypes ++ compat⟩

/-- Find out the baseline.  `exe` is the path of the probe program, beside which a dependency file
would be written. -/
def deriveBaseline (tc : Toolchain) (exe : Path) (settings : Settings) (env : Environment) :
    Inquiry Baseline := do
  let debug ← debugFlags tc
  let debug ← extendIfAccepted debug (tc.defineFlag "_FORTIFY_SOURCE" (some "2"))
  let release ← extendIfAccepted (releaseFlags tc) (tc.defineFlag "_FORTIFY_SOURCE" (some "1"))
  let cxxFlags ← extendIfAccepted
    (tc.cxxLanguageFlags ++ settings.cxxIncludeDirs.map tc.includeFlag) "-Wold-style-cast"
  let firstError ← firstErrorFlags tc
  let (supportsCxx, runtime) ← cxxRuntime tc
  let gnu ← match tc.style with
    | .gnu => gnuFindings tc exe env cxxFlags
    | .msvc => pure ⟨[], cxxFlags, false, []⟩
  let manualRegistration := !tc.capabilities.autoRegistration
  let manual :=
    if manualRegistration then
      [tc.defineFlag (settings.macroName "MANUAL_UNIT_TEST_REGISTRATION") none]
    else []
  return {
    cppFlags := tc.warningFlags ++ settings.includeDirs.map tc.includeFlag ++
      [tc.defineFlag (settings.macroName "UNIT_TEST") none] ++ firstError ++ gnu.cppFlags ++ manual
    cFlags := tc.cLanguageFlags ++ gnu.cFlags
    cxxFlags := gnu.cxxFlags
    ldFlags := tc.baseLinkFlags ++ runtime
    debug, release, supportsCxx, manualRegistration
    depfile := gnu.depfile }

end BuildMatrix
