import BuildMatrix.Variant.Baseline

/-!
# The matrix of variants

The baseline is expanded into families of variants, most of them pairs of a debug
and a release variant.  Which families there are depends on the compiler's
capabilities, on what it accepts, on the host and on the settings.

A family differs from the baseline by its *flavour*: the flags for C and for
C++, flags that override those, and the link flags.
-/

namespace BuildMatrix

/-! ## Flavours -/

/-- What sets a family of variants apart. -/
structure Flavour where
  cFlags : List String
  cxxFlags : List String
  /-- Flags for both languages that override those. -/
  overrides : List String := []
  ldFlags : List String

namespace Flavour

def plain (b : Baseline) : Flavour := { cFlags := b.cFlags, cxxFlags := b.cxxFlags, ldFlags := b.ldFlags }

def withC (f : Flavour) (flags : List String) : Flavour := { f with cFlags := f.cFlags ++ flags }

/-- Put flags in the place of those for C++. -/
def withCxx (f : Flavour) (flags : List String) : Flavour := { f with cxxFlags := flags }

/-- Compile every source as C++ with these flags. -/
def allCxx (f : Flavour) (flags : List String) : Flavour :=
  { f with cFlags := flags, cxxFlags := flags }

def overriding (f : Flavour) (flags : List String) : Flavour :=
  { f with overrides := f.overrides ++ flags }

def linking (f : Flavour) (flags : List String) : Flavour := { f with ldFlags := f.ldFlags ++ flags }

/-- The variant of this flavour with the given name and configuration flags. -/
def variant (f : Flavour) (b : Baseline) (name : String) (configFlags : List String) : Variant where
  name := name
  cppFlags := b.cppFlags
  cFlags := f.cFlags
  cxxFlags := f.cxxFlags
  overrides := f.overrides
  configFlags := configFlags
  ldFlags := f.ldFlags

/-- The debug and release variants of this flavour. -/
def pair (f : Flavour) (b : Baseline) (family : String) : List Variant :=
  Configuration.all.map fun c => f.variant b (variantName family c) (b.configFlags c)

end Flavour

/-! ## Families -/

/-- The families for Visual C++. -/
def msvcFamilies (b : Baseline) : Inquiry (List Variant) := do
  let plain := Flavour.plain b
  let cxx17 := b.cxxFlags ++ ["/std:c++17"]
  let noUnwind := b.cxxFlags.filter (· ≠ "/EHsc")
  let clr := noUnwind ++ ["/clr"]
  let hasCxx17 ← Inquiry.check cxx17
  let hasClr ← Inquiry.check clr
  return ((plain.overriding ["/GL"]).linking ["/LTCG"]).pair b "lto" ++
    (plain.allCxx b.cxxFlags).pair b "c++" ++
    (if hasCxx17 then (plain.allCxx cxx17).pair b "c++17" else []) ++
    (plain.allCxx noUnwind).pair b "c++-nounwind" ++
    (if hasClr then (plain.allCxx clr).pair b "c++-clr" else [])

/-- The pair with link-time optimisation.  The release variant trades `-O2` for `-O3`, and the link
repeats the flags of the compilations, so that code is generated with the same options. -/
def ltoPair (b : Baseline) : List Variant :=
  Configuration.all.map fun c =>
    let configFlags := match c with
      | .debug => b.debug
      | .release => b.release.map fun flag => if flag = "-O2" then "-O3" else flag
    let flavour := (Flavour.plain b).overriding ["-flto"]
    { flavour.variant b (variantName "lto" c) configFlags with
      ldFlags := b.cppFlags ++ ["-flto"] ++ configFlags ++ b.ldFlags }

/-- The families of the GNU style that compile C++, given whether the compiler accepts C11. -/
def gnuCxxFamilies (b : Baseline) (hasC11 : Bool) : Inquiry (List Variant) := do
  let plain := Flavour.plain b
  let noStandard := b.cxxFlags.filter (· ≠ "-std=c++11")
  let hasCxx17 ← Inquiry.check ["-x", "c++", "-std=c++17"]
  let hasNoExcept ← Inquiry.check ["-x", "c++", "-std=c++17", "-fno-exceptions"]
  return (if hasCxx17 ∧ hasC11 then
        ((plain.withC ["-std=c11"]).withCxx (noStandard ++ ["-std=c++17"])).pair b "c11-c++17"
      else []) ++
    (plain.allCxx (noStandard ++ ["-std=gnu++11"])).pair b "gnu++11" ++
    (if hasCxx17 then (plain.allCxx (noStandard ++ ["-std=c++17"])).pair b "c++17" else []) ++
    (if hasNoExcept then
        (plain.allCxx (noStandard ++ ["-std=c++17", "-fno-exceptions"])).pair b "c++17-noexcept"
      else [])

/-- The families of the GNU style.  GNU C89 comes without pedantic warnings, since the code relies
on its extensions. -/
def gnuFamilies (b : Baseline) : Inquiry (List Variant) := do
  let plain := Flavour.plain b
  let gnu89 := ["-std=gnu89", "-Wno-pedantic"]
  let hasGnu89 ← Inquiry.check gnu89
  let hasC11 ← Inquiry.check ["-std=c11"]
  let hasC99 ← Inquiry.check ["-std=c99"]
  let hasLto ← Inquiry.check ["-flto"]
  let cxx ← if b.supportsCxx then gnuCxxFamilies b hasC11 else pure []
  return (if hasGnu89 then (plain.withC gnu89).pair b "gnu89" else []) ++
    (if hasC11 then (plain.withC ["-std=c11"]).pair b "c11" else []) ++
    (if hasC99 then (plain.withC ["-std=c99"]).pair b "c99" else []) ++
    (if hasLto then ltoPair b else []) ++ cxx

/-- The pair that allocates with jemalloc, on a host that has it. -/
def jemallocFamily (tc : Toolchain) (b : Baseline) (host : Host) (settings : Settings) :
    List Variant :=
  if host.jemalloc then
    (((Flavour.plain b).overriding
        [tc.defineFlag (settings.macroName "JEMALLOC") (some "1")]).linking ["-ljemalloc"]).pair b
      "jemalloc"
  else []

/-- The variant that runs under valgrind, where it is wanted and there. -/
def valgrindFamily (b : Baseline) (host : Host) (settings : Settings) : List Variant :=
  if settings.valgrind ∧ host.valgrind then
    [{ (Flavour.plain b).variant b (variantName "valgrind" .debug) b.debug with
      runWrapper := some Host.valgrindName
      excluded := true }]
  else []

/-! ## The matrix -/

/-- Find out the variants of a baseline. -/
def buildMatrix (tc : Toolchain) (b : Baseline) (host : Host) (settings : Settings) :
    Inquiry VariantSet := do
  let msvc ← if tc.capabilities.msvcVariants then msvcFamilies b else pure []
  let gnu ← if tc.capabilities.gnuVariants then gnuFamilies b else pure []
  return VariantSet.ofList
    ((Flavour.plain b).pair b "default" ++ msvc ++ gnu ++ jemallocFamily tc b host settings ++
      valgrindFamily b host settings)

/-- Find out the baseline and its variants. -/
def planVariants (tc : Toolchain) (exe : Path) (settings : Settings) (env : Environment)
    (host : Host) : Inquiry (Baseline × VariantSet) := do
  let baseline ← deriveBaseline tc exe settings env
  let variants ← buildMatrix tc baseline host settings
  return (baseline, variants)

end BuildMatrix
