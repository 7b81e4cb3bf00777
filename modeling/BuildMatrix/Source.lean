import BuildMatrix.Path

/-!
# Sources

A source is a file that is compiled on its own.  Its language follows from its
extension.  Its object file is named after its path without the extension, so
two sources that differ in nothing else share an object name.

A source below the examples directory is an example.  It goes by a *slug*: its
path up to the first dot, with underscores in the place of separators.
-/

namespace BuildMatrix

open Text

inductive Language where
  | c
  /-- The language C++. -/
  | cxx
  deriving DecidableEq, Inhabited

def Language.name : Language → String
  | .c => "c"
  | .cxx => "c++"

/-- The language that a path's extension tells. -/
def Language.ofPath? (p : Path) : Option Language :=
  match p.extension? with
  | some "c" => some .c
  | some "cxx" => some .cxx
  | _ => none

/-- A file that is compiled on its own. -/
structure Source where
  /-- The path from the project root, with slashes. -/
  path : String
  language : Language
  /-- Whether it is an example program. -/
  isExample : Bool := false
  /-- Whether it is an example whose main function takes no arguments. -/
  mainVoid : Bool := false
  deriving DecidableEq, Inhabited

/-- A reversed path without its extension, reversed: what comes before the last dot, if no slash
comes after it. -/
def stemReversed (path : List Char) : List Char :=
  match path.dropWhile fun c => c ≠ '.' ∧ c ≠ '/' with
  | '.' :: stem => stem
  | _ => path

namespace Source

def stem (s : Source) : String := String.ofList (stemReversed s.path.toList.reverse).reverse

/-- The name of the object file below a variant's directory of objects. -/
def objectName (s : Source) (extension : String) : String := s.stem ++ extension

/-- The name by which an example goes. -/
def slug (s : Source) : String := before '.' (swap '\\' '_' (swap '/' '_' s.path))

end Source

example : (Source.mk "a/x.y/unit.cxx" .cxx false false).stem = "a/x.y/unit" := by decide +kernel

example : (Source.mk "a.b/c" .c false false).stem = "a.b/c" ∧
    (Source.mk "e/hello/h.x.c" .c true false).slug = "e_hello_h" := by decide +kernel

end BuildMatrix
