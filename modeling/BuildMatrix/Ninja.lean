import BuildMatrix.Graph

/-!
# The text of a build file

A build graph is written in the language of ninja.  The text is a function of the
graph alone, and it is always written as a whole.

On a build line a space ends a path and a colon ends the targets, so both are
written with a dollar sign before them, and so is a dollar sign itself.  In the
value of a variable only the dollar sign has a meaning.  The variables of rules
and of the whole file are templates and are written as they stand.
-/

namespace BuildMatrix.Ninja

/-! ## Escapes -/

/-- A character of a path, as it is written on a build line. -/
def pathChar (c : Char) : List Char :=
  if c = '$' then ['$', '$'] else if c = ' ' then ['$', ' '] else if c = ':' then ['$', ':'] else [c]

/-- A path, as it is written on a build line. -/
def escapePath (path : String) : String := String.ofList (path.toList.flatMap pathChar)

/-- A character of a value, as it is written. -/
def valueChar (c : Char) : List Char := if c = '$' then ['$', '$'] else [c]

/-- The value of a variable, as it is written. -/
def escapeValue (value : String) : String := String.ofList (value.toList.flatMap valueChar)

/-! ## Parts of the file -/

/-- The version of ninja that the file asks for, the first that knows `deps`. -/
def requiredVersion : String := "1.3"

/-- The lines before everything else. -/
def header : String :=
  "# This file is auto-generated by kiln.\n# Do not edit it; your changes will be erased.\n\n" ++
    "ninja_required_version = " ++ requiredVersion ++ "\n\n"

/-- A file-scope variable.  One without a value ends in the equals sign. -/
def globalLine (g : String × String) : String :=
  if g.2 = "" then g.1 ++ " =\n" else g.1 ++ " = " ++ g.2 ++ "\n"

/-- A variable of a rule or an edge, indented. -/
def bindingLine (key value : String) : String := "  " ++ key ++ " = " ++ value ++ "\n"

/-- A rule with its variables and a blank line. -/
def ruleText (r : Rule) : String :=
  "rule " ++ r.name ++ "\n" ++ String.join (r.bindings.map fun b => bindingLine b.1 b.2) ++ "\n"

/-- The build line of an edge. -/
def buildLine (e : Edge) : String :=
  "build " ++ escapePath e.target ++ ": " ++ e.rule ++
    String.join (e.inputs.map fun input => " " ++ escapePath input) ++ "\n"

/-- An edge with its variables. -/
def edgeText (e : Edge) : String :=
  buildLine e ++ String.join (e.bindings.map fun b => bindingLine b.1 (escapeValue b.2))

/-- The edges, with a blank line after each phony edge that does not follow another.  `afterPhony`
says whether the edge before the first is phony. -/
def edgesText (afterPhony : Bool) : List Edge → String
  | [] => ""
  | e :: rest =>
      edgeText e ++ (if e.isPhony && !afterPhony then "\n" else "") ++ edgesText e.isPhony rest
termination_by structural edges => edges

/-- The line of default targets, if there are any. -/
def defaultsText (defaults : List String) : String :=
  if defaults.isEmpty then ""
  else "\ndefault " ++ " ".intercalate (defaults.map escapePath) ++ "\n"

/-! ## The file -/

/-- The text of a graph. -/
def render (g : Graph) : String :=
  header ++ String.join (g.globals.map globalLine) ++ (if g.globals.isEmpty then "" else "\n") ++
    String.join (g.rules.map ruleText) ++ edgesText false g.edges ++ defaultsText g.defaults

example : escapePath "C:/a b/$x" = "C$:/a$ b/$$x" ∧ escapeValue "a b:$c" = "a b:$$c" := by
  decide +kernel

end BuildMatrix.Ninja
