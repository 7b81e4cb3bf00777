import BuildMatrix.Flag
import BuildMatrix.SortedMap
import BuildMatrix.Source

/-!
# Build variants

A variant is one complete way to compile, link and run the tests.  It has its
own objects and its own program.  The flags of a compilation come from four of
its lists; they are composed by stage, so the configuration's flags come last and
room for the flags of a single source is left before them.

A `VariantSet` holds variants by name.  A variant replaces an earlier one of the
same name.
-/

namespace BuildMatrix

/-! ## Configurations -/

/-- The two halves of a pair of variants. -/
inductive Configuration where
  /-- For finding faults. -/
  | debug
  /-- For speed. -/
  | release
  deriving DecidableEq, Inhabited

def Configuration.all : List Configuration := [.debug, .release]

def Configuration.name : Configuration → String
  | .debug => "debug"
  | .release => "release"

/-- The name of one half of a pair of variants. -/
def variantName (family : String) (c : Configuration) : String := family ++ "-" ++ c.name

/-! ## Variants -/

/-- One complete way to compile, link and run the tests. -/
structure Variant where
  name : String
  cppFlags : List String := []
  cFlags : List String := []
  cxxFlags : List String := []
  /-- Flags for both languages that override those. -/
  overrides : List String := []
  configFlags : List String := []
  ldFlags : List String := []
  /-- The program under which the tests are run. -/
  runWrapper : Option String := none
  /-- Whether the variant is left out when all are asked for. -/
  excluded : Bool := false
  deriving DecidableEq, Inhabited

def Variant.languageFlags (v : Variant) : Language → List String
  | .c => v.cFlags
  | .cxx => v.cxxFlags

/-- The flags of a compilation in a language, by stage. -/
def Variant.compileFlags (v : Variant) (language : Language) : FlagList where
  common := v.cppFlags
  language := v.languageFlags language
  variant := v.overrides
  configuration := v.configFlags

/-! ## Sets of variants -/

/-- Variants by name. -/
structure VariantSet where
  byName : SortedMap String Variant
  deriving DecidableEq

namespace VariantSet

def empty : VariantSet := ⟨SortedMap.empty⟩

def get? (vs : VariantSet) (name : String) : Option Variant := vs.byName.get? name

def contains (vs : VariantSet) (name : String) : Bool := vs.byName.contains name

/-- Add a variant, in place of one of the same name. -/
def insert (vs : VariantSet) (v : Variant) : VariantSet := ⟨vs.byName.insert v.name v⟩

/-- The set of a list of variants; of two with the same name the later counts. -/
def ofList (variants : List Variant) : VariantSet := variants.foldl insert empty

def size (vs : VariantSet) : Nat := vs.byName.size

def isEmpty (vs : VariantSet) : Bool := vs.byName.isEmpty

/-- The variants, in the order of their names. -/
def toList (vs : VariantSet) : List Variant := vs.byName.values

def names (vs : VariantSet) : List String := vs.byName.keys

end VariantSet

end BuildMatrix
