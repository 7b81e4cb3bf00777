import BuildMatrix.Probe.Prober
import BuildMatrix.Settings

/-!
# Sessions

A session is a compiler with its probe cache for the time of one run.  Opening it
chooses the compiler, creates the build root and loads the cache that is kept
there.  A compiler that cannot be found ends the run before any file is touched.

Work in a session is done by a prober over the cache.  Afterwards the cache is
saved whether or not the work succeeded, so no verdict is lost.  If both fail the
work's failure is the one reported.
-/

namespace BuildMatrix

/-- What a run is asked to do. -/
structure Options where
  projectRoot : Path := ⟨""⟩
  /-- The build directory, where it differs from the settings. -/
  buildDir : Option Path := none
  /-- The compiler, where it differs from the environment. -/
  cc : Option String := none
  /-- Whether a cache that is there is passed over. -/
  noCache : Bool := false
  deriving DecidableEq, Inhabited

namespace Options

/-- The build directory as the build graph shows it. -/
def buildDirectory (o : Options) (settings : Settings) : Path := o.buildDir.getD settings.buildDir

/-- The build directory seen from where the run was started. -/
def buildRoot (o : Options) (settings : Settings) : Path :=
  o.projectRoot.join (o.buildDirectory settings)

end Options

/-- The name of the cache file in the build root. -/
def cacheFileName : String := "config.json"

/-- A compiler with its probe cache. -/
structure Session where
  toolchain : Toolchain
  /-- The cache as it was loaded. -/
  cache : Cache
  buildRoot : Path

namespace Session

def cachePath (s : Session) : Path := s.buildRoot.child cacheFileName

/-- The cache that a session starts with. -/
def startingCache (noCache : Bool) (path : Path) (key : String) : Task Failure World Cache := do
  if noCache then
    World.tell "Ignoring cached configuration"
    return Cache.empty key
  else
    let (cache, told) := Cache.load (← get).tree path key
    modify fun w => { w with told := w.told ++ told }
    return cache

/-- Choose the compiler, create the build root and load the cache. -/
def start (o : Options) (settings : Settings) (env : Environment) (runner : Runner) :
    Task Failure World Session := do
  let toolchain ← World.detect runner (o.cc <|> env.cc)
  let buildRoot := o.buildRoot settings
  World.onTree (Tree.ensureDirectory buildRoot)
  let cache ← startingCache o.noCache (buildRoot.child cacheFileName) toolchain.identity.cacheKey
  return { toolchain, cache, buildRoot }

/-- Keep the cache of a probing. -/
def saveCache (path : Path) : Task Failure Probing Unit := do
  let s ← get
  Probing.onWorld (World.onTree (s.cache.save path))

/-- The prober of a session. -/
def prober (s : Session) (runner : Runner) : Prober := ⟨s.toolchain, runner, s.buildRoot⟩

/-- Do some work with a prober over the session's cache and save the cache in any case. -/
def run {α : Type} (s : Session) (runner : Runner) (work : Prober → Task Failure Probing α) :
    Task Failure World α := fun w =>
  match Task.ensuring (work (s.prober runner)) (saveCache s.cachePath)
      { cache := s.cache, world := w } with
  | .ok value state => .ok value state.world
  | .error failure state => .error failure state.world

end Session

end BuildMatrix
