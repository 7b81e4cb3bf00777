import BuildMatrix.Graph
import BuildMatrix.Graph.Cycle

/-!
# Validity of build graphs

A graph is *valid* if an executor can act on it.  The rule of every edge is
declared, or it is `phony`.  Every input of a phony edge is some edge's target,
and every input of any other edge is some edge's target or a source.  Every
default is some edge's target.  No target depends on itself.

`Graph.validate` reports the first thing that is wrong.  It goes through the
edges in order, in each through the rule and then the inputs, then through the
defaults, and looks for cycles last.
-/

namespace BuildMatrix.Graph

def hasRule (g : Graph) (rule : String) : Bool := g.rules.any (·.name = rule)

/-- Whether an edge may have this input. -/
def resolves (g : Graph) (e : Edge) (input : String) : Bool :=
  g.hasTarget input || (!e.isPhony && g.sources.contains input)

/-- Check the rule and the inputs of an edge. -/
def checkEdge (g : Graph) (e : Edge) : Except GraphError Unit :=
  if !e.isPhony && !g.hasRule e.rule then .error (.unknownRule e.target e.rule)
  else
    match e.inputs.find? fun input => !g.resolves e input with
    | some input => .error (.danglingInput e.target input)
    | none => .ok ()

/-- Check that every default is made by some edge. -/
def checkDefaults (g : Graph) : Except GraphError Unit :=
  match g.defaults.find? fun target => !g.hasTarget target with
  | some target => .error (.danglingInput "default" target)
  | none => .ok ()

/-- Check that no target depends on itself. -/
def checkAcyclic (g : Graph) : Except GraphError Unit :=
  match cycleNode? g.targets g.arcs with
  | some target => .error (.cycle target)
  | none => .ok ()

/-- Check the whole graph and report the first thing that is wrong. -/
def validate (g : Graph) : Except GraphError Unit := do
  g.edges.forM g.checkEdge
  g.checkDefaults
  g.checkAcyclic

end BuildMatrix.Graph
