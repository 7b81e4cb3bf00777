import BuildMatrix.Graph.Validate
import BuildMatrix.Source
import BuildMatrix.Variant.Matrix

/-!
# From variants and sources to a build graph

For each variant, every source that can be compiled becomes one edge to an object
below the variant's own directory, all objects feed one edge to the runner, and
one edge runs it.  The bare name of the variant is another name for its runner.
Where unit tests do not register themselves, a file is generated from the objects
and compiled as well.

The targets `default`, `all` and `more` run several variants.  `default` is there
only if the default variant is.

The edges of a variant are a plain list (`variantEdges`), and so are those of all
variants together (`allEdges`).  Adding them to a graph can fail on a repeated
target, and the finished graph is checked as a whole.
-/

namespace BuildMatrix

open Text

/-! ## Names -/

/-- The name of the rule that runs a runner. -/
def runRuleName : String := "run"

/-- The name of the rule that collects unit tests from objects. -/
def generateRuleName : String := "generate_unit_test_registrations"

/-- The variant that is built and run by default. -/
def defaultVariant : String := "default-debug"

/-- The target that runs the default variant. -/
def defaultTarget : String := "default"

/-- The target that runs all variants that are not excluded. -/
def allTarget : String := "all"

/-- The target that runs a chosen few families. -/
def moreTarget : String := "more"

def runTarget (variant : String) : String := "run-" ++ variant

/-- The name of the generated source without its extension. -/
def registrationStem : String := "register_unit_tests"

def valgrindOptions : String :=
  "--leak-check=full --error-exitcode=1 --suppressions=tools/valgrind-suppressions " ++
    "--show-leak-kinds=all --errors-for-leak-kinds=all"

/-- The command that a runner is given to, with a space at its end. -/
def wrapperCommand (wrapper : String) : String :=
  if wrapper = Host.valgrindName then wrapper ++ " " ++ valgrindOptions ++ " " else wrapper ++ " "

/-! ## The emitter -/

/-- What the graph depends on besides variants and sources. -/
structure Emitter where
  toolchain : Toolchain
  baseline : Baseline
  settings : Settings
  /-- The build directory, as the graph's paths begin. -/
  buildDir : String
  /-- A command before the compiler. -/
  launcher : Option String := none

namespace Emitter

/-- The start of the graph's paths for a build directory: with slashes, and none at the end. -/
def directoryText (buildDir : Path) : String := trimEnd '/' buildDir.slashed

/-- The rules, in the order of their declaration. -/
def rules (e : Emitter) : List Rule :=
  [⟨runRuleName, [("command", "$run_wrapper$in")]⟩,
    e.toolchain.compileRule e.launcher e.baseline.depfile] ++
  (if e.baseline.manualRegistration then
    [⟨generateRuleName, [("command", e.settings.registrationGenerator.slashed ++ " $out $in")]⟩]
   else []) ++
  [e.toolchain.linkRule]

/-- The graph before its edges: variables, rules and sources. -/
def start (e : Emitter) (sources : List Source) : Graph :=
  sources.foldl (fun g s => g.addSource s.path)
    (e.rules.foldl Graph.addRule (Graph.empty.addGlobal "run_wrapper" ""))

/-! ## Edges of one variant -/

def variantDir (e : Emitter) (variant : String) : String := e.buildDir ++ "/" ++ variant

/-- The directory of a variant's objects. -/
def objectDir (e : Emitter) (variant : String) : String := e.variantDir variant ++ "/objs"

def objectTarget (e : Emitter) (variant : String) (s : Source) : String :=
  e.objectDir variant ++ "/" ++ s.objectName e.toolchain.objectExtension

/-- The target for a variant's generated source. -/
def generatedTarget (e : Emitter) (variant : String) : String :=
  e.variantDir variant ++ "/" ++ registrationStem ++ ".c"

/-- The target for the object of a variant's generated source. -/
def registrationTarget (e : Emitter) (variant : String) : String :=
  e.objectDir variant ++ "/" ++ registrationStem ++ e.toolchain.objectExtension

def runnerTarget (e : Emitter) (variant : String) : String :=
  e.variantDir variant ++ "/runner" ++ e.toolchain.exeExtension

/-- Whether a source can be compiled. -/
def compilable (e : Emitter) (s : Source) : Bool :=
  s.language = .c || e.baseline.supportsCxx

/-- The flags that put an example into the harness. -/
def harnessFlags (e : Emitter) (s : Source) : List String :=
  if s.isExample then
    [e.toolchain.includeFlag e.settings.harnessIncludeDir,
      e.toolchain.defineFlag (e.settings.macroName "EXAMPLE_NAME") (some s.slug)] ++
    e.toolchain.forcedIncludeFlags e.settings.harnessHeader ++
    (if s.mainVoid then
      [e.toolchain.defineFlag (e.settings.macroName "EXAMPLE_MAIN_VOID") none]
     else [])
  else []

/-- The flags of a compilation for a variant, without those of a single source. -/
def variantFlags (e : Emitter) (v : Variant) (language : Language) : FlagList :=
  (v.compileFlags language).append .variant (e.toolchain.variantDirFlags (e.variantDir v.name))

/-- The flags with which a source is compiled for a variant. -/
def sourceFlags (e : Emitter) (v : Variant) (s : Source) : FlagList :=
  (e.variantFlags v s.language).append .source (e.harnessFlags s)

/-- The edge that compiles a source for a variant. -/
def compileEdge (e : Emitter) (v : Variant) (s : Source) : Edge where
  target := e.objectTarget v.name s
  rule := Toolchain.compileRuleName
  inputs := [s.path]
  bindings := [("flags", (e.sourceFlags v s).text)]

/-- The edges that generate and compile the file of unit tests, from the given objects. -/
def registrationEdges (e : Emitter) (v : Variant) (objects : List String) : List Edge :=
  [{ target := e.generatedTarget v.name, rule := generateRuleName, inputs := objects },
    { target := e.registrationTarget v.name
      rule := Toolchain.compileRuleName
      inputs := [e.generatedTarget v.name]
      bindings := [("flags", (e.variantFlags v .c).text)] }]

/-- The edge that links a variant's runner from its objects. -/
def linkEdge (e : Emitter) (v : Variant) (objects : List String) : Edge where
  target := e.runnerTarget v.name
  rule := Toolchain.linkRuleName
  inputs := objects
  bindings := [("flags", spaced v.ldFlags)]

/-- The edge that runs a variant. -/
def runEdge (e : Emitter) (v : Variant) : Edge where
  target := runTarget v.name
  rule := runRuleName
  inputs := [e.runnerTarget v.name]
  bindings := match v.runWrapper with
    | some wrapper => [("run_wrapper", wrapperCommand wrapper)]
    | none => []

/-- The edges of a variant, in order. -/
def variantEdges (e : Emitter) (sources : List Source) (v : Variant) : List Edge :=
  let compiled := sources.filter e.compilable
  let objects := compiled.map (e.objectTarget v.name)
  let manual := e.baseline.manualRegistration
  compiled.map (e.compileEdge v) ++
  (if manual then e.registrationEdges v objects else []) ++
  [e.linkEdge v (objects ++ if manual then [e.registrationTarget v.name] else []),
    Edge.alias v.name [e.runnerTarget v.name], e.runEdge v]

/-! ## Edges of all variants -/

/-- The variants that `more` runs: both halves of each family, where they exist. -/
def moreVariants (e : Emitter) (variants : VariantSet) : List String :=
  (e.settings.moreVariants.flatMap fun family =>
    Configuration.all.map (variantName family)).filter variants.contains

/-- The edges that run several variants. -/
def aggregateEdges (e : Emitter) (variants : VariantSet) : List Edge :=
  (if variants.contains defaultVariant then
    [Edge.alias defaultTarget [runTarget defaultVariant]] else []) ++
  [Edge.alias allTarget ((variants.toList.filter fun v => !v.excluded).map (runTarget ·.name)),
    Edge.alias moreTarget ((e.moreVariants variants).map runTarget)]

/-- All edges, in order. -/
def allEdges (e : Emitter) (variants : VariantSet) (sources : List Source) : List Edge :=
  variants.toList.flatMap (e.variantEdges sources) ++ e.aggregateEdges variants

/-- The defaults of the graph. -/
def defaults (variants : VariantSet) : List String :=
  if variants.contains defaultVariant then [runTarget defaultVariant] else []

/-! ## The graph -/

/-- The build graph of the variants and sources, if it is a valid one. -/
def emit (e : Emitter) (variants : VariantSet) (sources : List Source) :
    Except GraphError Graph := do
  let g ← (e.start sources).addAll (e.allEdges variants sources)
  let g := (defaults variants).foldl Graph.addDefault g
  g.validate
  return g

end Emitter

end BuildMatrix
