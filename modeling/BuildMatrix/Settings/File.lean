import BuildMatrix.Settings
import BuildMatrix.Toml.Document

/-!
# The settings file

A project states its settings under the key `configure` of a TOML file in its
root.  A table states each setting by its name.  A list states them by their
places, in the order of `Settings`.  What is not stated has its default, and what
is no setting is passed over; a setting of the wrong kind spoils the file.

`Settings.load` says what is wrong with a file.  A run uses `Settings.ofProject`,
for which a file that is missing or spoiled states nothing.
-/

namespace BuildMatrix

/-- Why settings cannot be taken from a file. -/
inductive SettingsError where
  /-- The file cannot be read, or is not text. -/
  | unreadable (path : Path)
  /-- The text is not TOML, or a setting is of the wrong kind. -/
  | malformed (path : Path)
  deriving DecidableEq

/-- What is wrong with a settings file, in words. -/
def SettingsError.message : SettingsError → String
  | .unreadable path => "failed to read config file: " ++ path.text
  | .malformed path => "failed to parse config file: " ++ path.text

namespace Settings

/-! ## Kinds of settings -/

/-- The text that a value is. -/
def text? : Toml → Option String
  | .text value => some value
  | _ => none

/-- The path that a value spells. -/
def path? (t : Toml) : Option Path := (text? t).map Path.mk

/-- The truth that a value is. -/
def truth? : Toml → Option Bool
  | .truth value => some value
  | _ => none

/-- The list that a value is, if all its items are of one kind. -/
def listOf? {α : Type} (item? : Toml → Option α) (t : Toml) : Option (List α) :=
  t.items? >>= List.mapM item?

/-! ## Statements of settings -/

/-- The statements that a value makes, each by its place and its name.  A moment counts as a table
that states no setting. -/
def statedBy? (t : Toml) : Option (Nat → String → Option Toml) :=
  match t.members?, t.items?, t with
  | some members, _, _ => some fun _ name => members.lookup name
  | none, some items, _ => some fun place _ => items[place]?
  | none, none, .moment => some fun _ _ => none
  | none, none, _ => none

/-- A setting as it is stated, or its default; none if it is of the wrong kind. -/
def setting {α : Type} (kind? : Toml → Option α) (default : α) : Option Toml → Option α
  | none => some default
  | some stated => kind? stated

/-- The settings that a value states. -/
def ofToml? (t : Toml) : Option Settings := do
  let stated ← statedBy? t
  let old : Settings := {}
  let buildDir ← setting path? old.buildDir (stated 0 "build_dir")
  let sourceDirs ← setting (listOf? path?) old.sourceDirs (stated 1 "source_dirs")
  let examplesDir ← setting path? old.examplesDir (stated 2 "examples_dir")
  let includeDirs ← setting (listOf? path?) old.includeDirs (stated 3 "include_dirs")
  let cxxIncludeDirs ← setting (listOf? path?) old.cxxIncludeDirs (stated 4 "cxx_include_dirs")
  let harnessIncludeDir ← setting path? old.harnessIncludeDir (stated 5 "harness_include_dir")
  let harnessHeader ← setting text? old.harnessHeader (stated 6 "harness_header")
  let macroPrefix ← setting text? old.macroPrefix (stated 7 "macro_prefix")
  let benchmarkMarker ← setting text? old.benchmarkMarker (stated 8 "benchmark_marker")
  let registrationGenerator ←
    setting path? old.registrationGenerator (stated 9 "registration_generator")
  let moreVariants ← setting (listOf? text?) old.moreVariants (stated 10 "more_variants")
  let valgrind ← setting truth? old.valgrind (stated 11 "valgrind")
  return { buildDir, sourceDirs, examplesDir, includeDirs, cxxIncludeDirs, harnessIncludeDir,
           harnessHeader, macroPrefix, benchmarkMarker, registrationGenerator, moreVariants, valgrind }

/-- The settings that the text of a settings file states. -/
def ofText? (text : String) : Option Settings := do
  let document ← Toml.parse? text
  let members ← document.members?
  setting ofToml? {} (members.lookup "configure")

/-! ## Files -/

/-- The name of the settings file in the root of a project. -/
def fileName : String := "kiln.toml"

/-- The settings that a file states. -/
def load (tree : Tree) (path : Path) : Except SettingsError Settings :=
  match tree.readText path with
  | .error _ => .error (.unreadable path)
  | .ok text =>
      match ofText? text with
      | some settings => .ok settings
      | none => .error (.malformed path)

/-- The settings of the project at a root. -/
def ofProject (tree : Tree) (root : Path) : Settings :=
  (load tree (root.child fileName)).toOption.getD {}

/-! ## Tests -/

/-- Settings stated by their places. -/
example :
    (ofToml? (.list [.text "o", .list [.text "s"]])).map
      (fun s => (s.buildDir.text, s.sourceDirs.map Path.text, s.valgrind)) =
        some ("o", ["s"], false) := by
  decide

/-- A setting of the wrong kind. -/
example : ofToml? (.braced [("valgrind", .number)]) = none := by decide

end Settings

end BuildMatrix
