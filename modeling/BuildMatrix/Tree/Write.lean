import BuildMatrix.Task
import BuildMatrix.Tree

/-!
# Writing to a tree

Three ways to change a tree.  `ensureDirectory` creates a directory and the
directories above it, unless its path leads somewhere already.  `writeText` puts
a text into a file, through links, and creates the directories above it.
`replaceText` does the same in one step: it fills a temporary file beside the
target and renames it over the target, so nobody ever sees half of a text.  A
rename takes the place of a link and not of what it leads to, and it refuses a
directory.  A temporary file that cannot be renamed is removed.

Directories that were created on the way to a failure stay.
-/

namespace BuildMatrix

/-- A change of a tree that failed. -/
inductive WriteFailure where
  /-- A directory could not be created. -/
  | createDirectory (path : Path) (cause : Trouble)
  /-- No temporary file could be created in a directory. -/
  | createTemporary (directory : Path) (cause : Trouble)
  /-- A file could not be written. -/
  | writeFile (path : Path) (cause : Trouble)
  deriving DecidableEq

/-- What failed, in words. -/
def WriteFailure.message : WriteFailure → String
  | .createDirectory path _ => "failed to create directory: " ++ path.text
  | .createTemporary directory _ => "failed to create temporary file in " ++ directory.text
  | .writeFile path _ => "failed to write file: " ++ path.text

/-- Why it failed. -/
def WriteFailure.cause : WriteFailure → Trouble
  | .createDirectory _ cause | .createTemporary _ cause | .writeFile _ cause => cause

namespace Tree

/-! ## Directories -/

/-- The tree with a directory at a vacant place.  Slashes at the end of the path do not count. -/
def makeDirectory (t : Tree) (p : Path) : Except Trouble Tree :=
  match t.follow .entry p (p.pieces.reverse.dropWhile (· = "")).reverse with
  | .ok (.vacant dir name) => .ok (t.put (dir ++ [name]) .directory)
  | .ok (.taken _ _) => .error .alreadyExists
  | .error trouble => .error trouble

/-- Create the directory of the first path, and before it those of the paths above it where they
are missing.  The empty path needs no directory. -/
def makeDirectories : List Path → Task Trouble Tree Unit
  | [] => throw .notFound
  | p :: above => do
      if p.text = "" then return
      match (← get).makeDirectory p with
      | .ok t => set t
      | .error .notFound =>
          makeDirectories above
          match (← get).makeDirectory p with
          | .ok t => set t
          | .error trouble => if (← get).isDirectory p then return else throw trouble
      | .error trouble => if (← get).isDirectory p then return else throw trouble
termination_by structural paths => paths

/-- Create a directory and those above it, unless the path leads to something already. -/
def ensureDirectory (p : Path) : Task WriteFailure Tree Unit := do
  if (← get).reaches p then return
  (makeDirectories (p :: p.ancestors)).within id (fun t _ => t) (.createDirectory p)

/-! ## Files -/

/-- The tree with the bytes of the file that a path leads to replaced, or with a new file. -/
def fill (t : Tree) (p : Path) (content : ByteArray) : Except Trouble Tree :=
  match t.locate .file p with
  | .ok (.taken location (.file _)) => .ok (t.put location (.file content))
  | .ok (.taken _ _) => .error .isDirectory
  | .ok (.vacant dir name) => .ok (t.put (dir ++ [name]) (.file content))
  | .error trouble => .error trouble

/-- Write a text to a file, through links, and create the directories above it. -/
def writeText (p : Path) (text : String) : Task WriteFailure Tree Unit := do
  if let some above := p.parent? then ensureDirectory above
  match (← get).fill p text.toUTF8 with
  | .ok t => set t
  | .error trouble => throw (.writeFile p trouble)

/-! ## Replacing in one step -/

/-- A name that no node of the tree has. -/
def freshName (t : Tree) : String :=
  let longest := t.nodes.keys.foldl (fun n key => max n ((key.getLast?.getD "").length)) 0
  ".tmp" ++ String.ofList (List.replicate longest 'x')

/-- The path of a temporary file in a directory, spelled from the root directory.  The name stands
for any other of its length. -/
def temporaryPath (t : Tree) (directory : Path) : Path :=
  (t.fromRoot directory).child ".tmpxxxxxx"

/-- The location of a new temporary file in a directory. -/
def temporary (t : Tree) (directory : Path) : Except Trouble Location :=
  if pathLimit < (t.temporaryPath directory).text.utf8ByteSize then .error .nameTooLong
  else
    match t.find? directory with
    | some (dir, .directory) => .ok (dir ++ [t.freshName])
    | some _ => .error .notDirectory
    | none => .error .notFound

/-- The tree with a file moved to where a path leads.  A file or link there is replaced, a
directory is not. -/
def rename (t : Tree) (source : Location) (p : Path) : Except Trouble Tree :=
  match t.node? source, t.locate .entry p with
  | some node, .ok (.vacant dir name) => .ok ((t.erase source).put (dir ++ [name]) node)
  | some _, .ok (.taken _ .directory) => .error .isDirectory
  | some node, .ok (.taken target _) => .ok ((t.erase source).put target node)
  | none, .ok _ => .error .notFound
  | _, .error trouble => .error trouble

/-- The directory that holds a path, spelled `.` where the path does not say. -/
def holder (p : Path) : Path :=
  match p.parent? with
  | some above => if above.text = "" then ⟨"."⟩ else above
  | none => ⟨"."⟩

/-- Replace the contents of a file in one step. -/
def replaceText (p : Path) (text : String) : Task WriteFailure Tree Unit := do
  ensureDirectory (holder p)
  match (← get).temporary (holder p) with
  | .error trouble => throw (.createTemporary (holder p) trouble)
  | .ok source =>
      modify (·.put source (.file text.toUTF8))
      match (← get).rename source p with
      | .ok t => set t
      | .error trouble =>
          modify (·.erase source)
          throw (.writeFile p trouble)

/-! ## Removing -/

/-- The tree without what a path leads to, a link itself and not its target. -/
def remove (t : Tree) (p : Path) : Tree :=
  match t.locate .entry p with
  | .ok (.taken location _) => t.erase location
  | _ => t

end Tree

end BuildMatrix
