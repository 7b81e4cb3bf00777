import BuildMatrix.Settings
import BuildMatrix.Source
import BuildMatrix.Source.EntryPoint
import BuildMatrix.Tree

/-!
# Finding the sources

The source directories are walked in the order of the settings, each from the
top: a directory before what it holds, siblings by name.  A source directory may
itself be a link, but no link below it is followed or counts as a file.  What is
not there is skipped.

A file is a source if its extension tells a language, unless its name holds the
benchmark marker.  Examples are left out of a run that only analyses.  A file
that is found twice counts once, where it was found first.

On the way every directory is listed, and every example is read when it is taken.
The first of them that cannot be opened ends the search (`findSources`).  If all
can, the search finds what `collectSources` says of the tree.
-/

namespace BuildMatrix

open Text

/-- A file found by walking a source directory. -/
structure Found where
  /-- The path, seen from the project root. -/
  path : Path
  name : String
  content : ByteArray

/-- The file that an entry of the walk is, if it is one. -/
def foundOf (root base : Path) (e : List String × Node) : Option Found :=
  match e.2 with
  | .file content => some ⟨(e.1.foldl Path.child base).relativeTo root, e.1.getLast?.getD "", content⟩
  | _ => none

/-- The files below a source directory, in the order of the walk. -/
def filesBelow (t : Tree) (root dir : Path) : List Found :=
  let base := root.join dir
  match t.directory? base with
  | none => []
  | some location => (t.below location).filterMap (foundOf root base)

/-- The source that a file is, if it is one. -/
def Found.source? (settings : Settings) (scanBuild : Bool) (f : Found) : Option Source :=
  let marked := settings.benchmarkMarker ≠ "" ∧ occursIn settings.benchmarkMarker f.name
  let isExample := f.path.startsWith settings.examplesDir
  if marked ∨ (isExample ∧ scanBuild) then none
  else
    (Language.ofPath? f.path).map fun language =>
      { path := f.path.slashed
        language
        isExample
        mainVoid := isExample && EntryPoint.occurs (ofBytes f.content) }

/-- A file that is a source has a language; what else is said of it follows from its path and its
text. -/
theorem Found.exists_language {settings : Settings} {scanBuild : Bool} {f : Found} {s : Source}
    (h : f.source? settings scanBuild = some s) :
    ∃ language, Language.ofPath? f.path = some language ∧
      s = { path := f.path.slashed
            language
            isExample := f.path.startsWith settings.examplesDir
            mainVoid := f.path.startsWith settings.examplesDir &&
              EntryPoint.occurs (ofBytes f.content) } := by
  unfold Found.source? at h
  dsimp only at h
  split at h
  · cases h
  · obtain ⟨language, hlanguage, rfl⟩ := Option.map_eq_some_iff.1 h
    exact ⟨language, hlanguage, rfl⟩

/-- The sources without those whose path came before; `seen` lists the paths so far. -/
def withoutRepeats (seen : List String) : List Source → List Source
  | [] => []
  | s :: rest =>
      if s.path ∈ seen then withoutRepeats seen rest
      else s :: withoutRepeats (s.path :: seen) rest
termination_by structural sources => sources

/-- The sources of a project. -/
def collectSources (t : Tree) (root : Path) (settings : Settings) (scanBuild : Bool) :
    List Source :=
  withoutRepeats []
    ((settings.sourceDirs.flatMap (filesBelow t root)).filterMap (·.source? settings scanBuild))

/-! ## Searching -/

/-- Why a search for sources failed. -/
inductive SearchFailure where
  /-- On the walk of a source directory, a directory could not be listed. -/
  | walk (base directory : Path) (cause : Trouble)
  /-- An example could not be read. -/
  | read (file : Path) (cause : Trouble)
  deriving DecidableEq

/-- What failed, in words. -/
def SearchFailure.message : SearchFailure → String
  | .walk base _ _ => "failed to walk " ++ base.text
  | .read file _ => "failed to read " ++ file.text

/-- Why it failed, in words.  The walk names its directory and then repeats the cause. -/
def SearchFailure.reason : SearchFailure → String
  | .walk _ directory cause =>
      "IO error for operation on " ++ directory.text ++ ": " ++ cause.message ++ ": " ++ cause.message
  | .read _ cause => cause.message

/-- What a search does on its way.  The paths are those under which the walk goes. -/
inductive Step where
  /-- List a directory on the walk of a source directory. -/
  | list (base directory : Path)
  /-- Take a file for a source. -/
  | take (file : Path) (source : Source)
  deriving DecidableEq

/-- What is done for an entry of the walk, if anything. -/
def stepOf (settings : Settings) (scanBuild : Bool) (root base : Path) (e : List String × Node) :
    Option Step :=
  let path := e.1.foldl Path.child base
  match e.2 with
  | .directory => some (.list base path)
  | _ => ((foundOf root base e).bind (·.source? settings scanBuild)).map (.take path)

/-- The walk of a source directory, which is listed first. -/
def stepsBelow (t : Tree) (root : Path) (settings : Settings) (scanBuild : Bool) (dir : Path) :
    List Step :=
  let base := root.join dir
  match t.directory? base with
  | none => []
  | some location =>
      .list base base :: (t.below location).filterMap (stepOf settings scanBuild root base)

/-- Take the steps one by one, where `refusal?` says which paths cannot be opened; `seen` lists the
paths of the sources so far.  A source that came before is not looked at again. -/
def takeSteps (refusal? : Path → Option Trouble) (seen : List String) :
    List Step → Except SearchFailure (List Source)
  | [] => .ok []
  | .list base directory :: rest =>
      match refusal? directory with
      | some cause => .error (.walk base directory cause)
      | none => takeSteps refusal? seen rest
  | .take file s :: rest =>
      if s.path ∈ seen then takeSteps refusal? seen rest
      else
        match if s.isExample then refusal? file else none with
        | some cause => .error (.read file cause)
        | none => (takeSteps refusal? (s.path :: seen) rest).map (s :: ·)
termination_by structural steps => steps

/-- Find the sources of a project. -/
def findSources (refusal? : Path → Option Trouble) (t : Tree) (root : Path) (settings : Settings)
    (scanBuild : Bool) : Except SearchFailure (List Source) :=
  takeSteps refusal? [] (settings.sourceDirs.flatMap (stepsBelow t root settings scanBuild))

end BuildMatrix
