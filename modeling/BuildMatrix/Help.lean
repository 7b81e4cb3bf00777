import BuildMatrix.Emit

/-!
# The list of targets

A file beside the build file lists the targets that a user may ask for: first
those that are always the same, then the target that runs each variant, by name.
-/

namespace BuildMatrix

/-- The targets that are always the same, as the list shows them. -/
def commonTargets : List String := ["(default)", moreTarget, allTarget, "clean", "help"]

/-- One target of the list. -/
def helpLine (target : String) : String := "    " ++ target ++ "\n"

/-- The text of the list for a set of variants. -/
def renderHelp (variants : VariantSet) : String :=
  "\nAvailable targets:\n\n" ++ String.join (commonTargets.map helpLine) ++ "\n" ++
    String.join (variants.names.map fun name => helpLine (runTarget name))

end BuildMatrix
