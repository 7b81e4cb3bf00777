import BuildMatrix.SortedMap

/-!
# Build graphs

A build graph says what an executor has to do, free of any file format.  It has
rules, edges and default targets.  An *edge* makes one target from its inputs by
a rule.  The built-in rule `phony` makes nothing; such an edge is another name
for its inputs.

Edges are kept in the order in which they were added.  No two have the same
target, and `Graph.add` refuses an edge whose target is taken.  An index gives
the position of each target's edge.

What a graph has to satisfy beyond that is checked in `Graph.validate`.
-/

namespace BuildMatrix

/-! ## Rules and edges -/

/-- A way to make targets: a name and variables such as `command`. -/
structure Rule where
  /-- The name that edges refer to. -/
  name : String
  /-- The variables, in the order in which they are written. -/
  bindings : List (String × String) := []
  deriving DecidableEq, Inhabited

/-- The first value of a variable. -/
def Rule.get? (r : Rule) (key : String) : Option String := r.bindings.lookup key

/-- The name of the built-in rule of edges that are another name for their inputs. -/
def phony : String := "phony"

/-- One step of a build. -/
structure Edge where
  /-- The path or name that the step makes. -/
  target : String
  rule : String
  inputs : List String := []
  /-- Variables of this edge alone. -/
  bindings : List (String × String) := []
  deriving DecidableEq, Inhabited

/-- An edge that is another name for other targets. -/
def Edge.alias (target : String) (inputs : List String) : Edge := { target, rule := phony, inputs }

/-- The first value of a variable of the edge. -/
def Edge.binding? (e : Edge) (key : String) : Option String := e.bindings.lookup key

/-- Whether the edge is another name for its inputs. -/
def Edge.isPhony (e : Edge) : Bool := e.rule = phony

/-! ## Errors -/

/-- What can be wrong with a graph. -/
inductive GraphError where
  /-- Two edges have the same target. -/
  | duplicateTarget (target : String)
  /-- An edge, or the default, names an input that nothing makes. -/
  | danglingInput (target input : String)
  /-- An edge names a rule that is not declared. -/
  | unknownRule (target rule : String)
  /-- A target depends on itself. -/
  | cycle (target : String)
  deriving DecidableEq

/-- What is wrong, in words. -/
def GraphError.message : GraphError → String
  | .duplicateTarget target => "duplicate build target `" ++ target ++ "`"
  | .danglingInput target input =>
      "edge `" ++ target ++ "` depends on `" ++ input ++ "`, which is neither a source nor a target"
  | .unknownRule target rule => "edge `" ++ target ++ "` uses undeclared rule `" ++ rule ++ "`"
  | .cycle target => "dependency cycle through `" ++ target ++ "`"

/-! ## Graphs -/

/-- The description of a build. -/
structure Graph where
  /-- File-scope variables with their values. -/
  globals : List (String × String) := []
  rules : List Rule := []
  edges : List Edge := []
  /-- The position of each target's edge. -/
  index : SortedMap String Nat := SortedMap.empty
  /-- The files that are there before the build. -/
  sources : List String := []
  /-- The targets that are made when none is asked for. -/
  defaults : List String := []
  deriving DecidableEq

namespace Graph

def empty : Graph := {}

instance : Inhabited Graph := ⟨empty⟩

/-- Add a file-scope variable. -/
def addGlobal (g : Graph) (key value : String) : Graph :=
  { g with globals := g.globals ++ [(key, value)] }

def addRule (g : Graph) (rule : Rule) : Graph := { g with rules := g.rules ++ [rule] }

def addSource (g : Graph) (path : String) : Graph :=
  { g with sources := if path ∈ g.sources then g.sources else g.sources ++ [path] }

def addDefault (g : Graph) (target : String) : Graph :=
  { g with defaults := g.defaults ++ [target] }

/-- Whether some edge makes the target. -/
def hasTarget (g : Graph) (target : String) : Bool := g.index.contains target

/-- Add an edge, unless its target is taken. -/
def add (g : Graph) (edge : Edge) : Except GraphError Graph :=
  if g.hasTarget edge.target then .error (.duplicateTarget edge.target)
  else .ok
    { g with
      edges := g.edges ++ [edge]
      index := g.index.insert edge.target g.edges.length }

/-- Add edges one after the other. -/
def addAll (g : Graph) (edges : List Edge) : Except GraphError Graph := edges.foldlM add g

/-- The edge that makes a target. -/
def edge? (g : Graph) (target : String) : Option Edge := (g.index.get? target).bind (g.edges[·]?)

/-- The edges that use a rule, in order. -/
def edgesWithRule (g : Graph) (rule : String) : List Edge := g.edges.filter (·.rule = rule)

/-- The targets of the edges, in order. -/
def targets (g : Graph) : List String := g.edges.map (·.target)

/-- The arcs of the dependency relation: for each edge, one from each input that some edge makes to
the edge's target, in order. -/
def arcs (g : Graph) : List (String × String) :=
  g.edges.flatMap fun e => (e.inputs.filter g.hasTarget).map fun input => (input, e.target)

end Graph

end BuildMatrix
