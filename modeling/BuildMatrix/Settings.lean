import BuildMatrix.Path
import BuildMatrix.Process

/-!
# Settings

How a project is laid out and what its test harness calls things.  Every setting
has a default, so a project states only what differs.

Two more things steer a run: variables of the process environment, and facts
about the host that are found out once.
-/

namespace BuildMatrix

/-! ## The project -/

/-- How a project is laid out.  Directories are relative to the project root. -/
structure Settings where
  /-- The directory for everything that is built. -/
  buildDir : Path := ⟨"test/.build"⟩
  /-- The directories that are searched for sources, in order. -/
  sourceDirs : List Path := [⟨"test/src"⟩, ⟨"util"⟩, ⟨"examples"⟩]
  /-- The directory of the example programs. -/
  examplesDir : Path := ⟨"examples"⟩
  /-- The directories searched for headers by every compilation. -/
  includeDirs : List Path := [⟨"include"⟩, ⟨"util"⟩, ⟨"examples"⟩, ⟨"test/src"⟩]
  /-- The directories searched for headers by C++ compilations besides. -/
  cxxIncludeDirs : List Path := [⟨"bindings/cxx/include"⟩]
  /-- The directory searched for the headers of the example harness. -/
  harnessIncludeDir : Path := ⟨"test/src/pottery/isystem"⟩
  /-- The header that is included before every example. -/
  harnessHeader : String := "pottery/unit/test_pottery_example.h"
  /-- The start of the preprocessor names that the harness gives a meaning. -/
  macroPrefix : String := "POTTERY"
  /-- What marks the name of a file that is no source. -/
  benchmarkMarker : String := "benchmark"
  /-- The script that collects unit tests from object files. -/
  registrationGenerator : Path := ⟨"test/tools/generate-unit-test-registrations.sh"⟩
  /-- The kinds of variants that the target `more` runs. -/
  moreVariants : List String := ["default", "c++17", "gnu89"]
  /-- Whether a variant runs the tests under valgrind. -/
  valgrind : Bool := false
  deriving DecidableEq

namespace Settings

instance : Inhabited Settings := ⟨{}⟩

/-- The settings of a project that states none. -/
def default : Settings := {}

/-- A preprocessor name that the harness gives a meaning. -/
def macroName (s : Settings) (suffix : String) : String :=
  if s.macroPrefix = "" then suffix else s.macroPrefix ++ "_" ++ suffix

end Settings

/-! ## The process environment -/

/-- The variables of the process environment that steer a run. -/
structure Environment where
  /-- The compiler to use, where `CC` names one. -/
  cc : Option String := none
  /-- Whether `CCACHE_DISABLE` is `true`. -/
  ccacheDisabled : Bool := false
  /-- Whether `CI` is set. -/
  ci : Bool := false
  /-- Whether `KILN_SCAN_BUILD` is `true`, for a run that only analyses. -/
  scanBuild : Bool := false
  deriving DecidableEq, Inhabited

/-- The environment in which a variable has the value that `lookup` gives. -/
def Environment.ofVariables (lookup : String → Option String) : Environment where
  cc := (lookup "CC").filter (· ≠ "")
  ccacheDisabled := lookup "CCACHE_DISABLE" = some "true"
  ci := (lookup "CI").isSome
  scanBuild := lookup "KILN_SCAN_BUILD" = some "true"

/-! ## The host -/

/-- Facts about the host. -/
structure Host where
  /-- Whether the headers of jemalloc are installed. -/
  jemalloc : Bool := false
  /-- Whether `valgrind` is on the search path. -/
  valgrind : Bool := false
  /-- Whether `ccache` is on the search path. -/
  ccache : Bool := false
  deriving DecidableEq, Inhabited

namespace Host

/-- The header that shows that jemalloc is installed. -/
def jemallocHeader : Path := ⟨"/usr/include/jemalloc/jemalloc.h"⟩

/-- The program that checks the use of memory. -/
def valgrindName : String := "valgrind"

/-- The program that saves repeated compilations. -/
def ccacheName : String := "ccache"

/-- Find out about the host. -/
def detect (runner : Runner) (tree : Tree) : Host where
  jemalloc := tree.reaches jemallocHeader
  valgrind := (runner.find? valgrindName).isSome
  ccache := (runner.find? ccacheName).isSome

end Host

end BuildMatrix
