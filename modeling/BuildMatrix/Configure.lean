import BuildMatrix.Help
import BuildMatrix.Ninja
import BuildMatrix.Session
import BuildMatrix.Source.Discovery

/-!
# Configuring a project

A run is one straight line.  It opens a session, finds out the baseline and the
variants, finds the sources, makes the build graph, and writes the build file and
the list of targets into the build root.  The session saves the cache at the end,
also when a step before has failed.

The paths of the graph are relative to the project root, so the executor has to
be started there (`ninjaCommand`).
-/

namespace BuildMatrix

def ninjaFileName : String := "build.ninja"

/-- The name of the list of targets in the build root. -/
def helpFileName : String := "help"

/-- The command before the compiler, if there is one.  Only compilers of the GNU style get one, and
none under continuous integration or where the environment forbids it. -/
def selectLauncher (tc : Toolchain) (host : Host) (env : Environment) : Option String :=
  if tc.style = .gnu ∧ host.ccache ∧ ¬ env.ccacheDisabled ∧ ¬ env.ci then some Host.ccacheName
  else none

/-- The command that builds what was configured. -/
def ninjaCommand (o : Options) (settings : Settings) : String :=
  "ninja -C " ++ o.projectRoot.slashed ++ " -f " ++
    ((o.buildDirectory settings).child ninjaFileName).slashed

/-- What a run has made. -/
structure Configured where
  identity : Identity
  /-- The names of the variants, in order. -/
  variants : List String
  sources : Nat
  /-- The number of commands run to probe the compiler. -/
  probes : Nat
  buildRoot : Path

namespace Configured

def ninjaPath (c : Configured) : Path := c.buildRoot.child ninjaFileName

def helpPath (c : Configured) : Path := c.buildRoot.child helpFileName

def cachePath (c : Configured) : Path := c.buildRoot.child cacheFileName

end Configured

/-- The build graph of a run, if it is a valid one. -/
def graphOf (tc : Toolchain) (baseline : Baseline) (settings : Settings) (buildDir : Path)
    (launcher : Option String) (variants : VariantSet) (sources : List Source) :
    Except GraphError Graph :=
  Emitter.emit ⟨tc, baseline, settings, Emitter.directoryText buildDir, launcher⟩ variants sources

/-- The work of a run within its session. -/
def configureWork (o : Options) (settings : Settings) (env : Environment) (host : Host)
    (prober : Prober) : Task Failure Probing Configured := do
  let tc := prober.toolchain
  let (baseline, variants) ←
    prober.carryOut (planVariants tc prober.exe settings env host)
  match findSources Tree.refusal? (← get).world.tree o.projectRoot settings env.scanBuild with
  | .error failure => throw (.search failure)
  | .ok sources =>
      match graphOf tc baseline settings (o.buildDirectory settings) (selectLauncher tc host env)
          variants sources with
      | .error error => throw (.inconsistent error)
      | .ok graph =>
          let made : Configured :=
            { identity := tc.identity
              variants := variants.names
              sources := sources.length
              probes := (← get).invocations
              buildRoot := prober.scratch }
          Probing.onWorld do
            World.onTree (Tree.replaceText made.ninjaPath (Ninja.render graph))
            World.tell ("Generated " ++ made.ninjaPath.text)
            World.onTree (Tree.replaceText made.helpPath (renderHelp variants))
          return made

/-- Configure a project. -/
def configure (o : Options) (settings : Settings) (env : Environment) (host : Host)
    (runner : Runner) : Task Failure World Configured := do
  let session ← Session.start o settings env runner
  session.run runner (configureWork o settings env host)

end BuildMatrix
