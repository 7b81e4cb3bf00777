import BuildMatrix.Compiler.Family
import BuildMatrix.Path

/-!
# Compiler identities

The compiler of a run: its family, the name under which it was chosen and the
executable found for that name.  What a compiler was found to accept is
remembered under family and name, so a compiler of another family that goes by the
same name does not inherit it.
-/

namespace BuildMatrix

/-- The compiler of a run. -/
structure Identity where
  family : Family
  /-- The name under which the compiler was chosen. -/
  cc : String
  /-- The executable found for the name. -/
  path : Path
  deriving DecidableEq

/-- The key under which verdicts on flags are remembered. -/
def Identity.cacheKey (i : Identity) : String := i.family.name ++ ":" ++ i.cc

/-- Family and name, for the user. -/
def Identity.display (i : Identity) : String := i.family.name ++ " (" ++ i.cc ++ ")"

end BuildMatrix
