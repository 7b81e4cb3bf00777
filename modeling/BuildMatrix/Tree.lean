import BuildMatrix.SortedMap
import BuildMatrix.Path.Relative
import BuildMatrix.Text.Utf8

/-!
# File trees

A file tree is a map from *locations* to *nodes*.  A location is the list of
names on the way from the root directory, free of links and of steps upward.
The root directory is always there and has no entry of its own.  Locations are
ordered name by name, so everything below a directory stands right after it,
siblings by name.

Paths are followed by `Tree.resolve`.  It starts at a directory and takes one
piece of the path at a time.  A link on the way is replaced by the pieces of its
target; at most `linkLimit` links are followed in one resolution, and between
two links the number of pieces falls, which bounds the recursion.  What becomes
of a link in last place depends on the `Aim` with which the path is followed.

Names are texts, so a name that is not UTF-8 has no place in a tree.  There are no
permissions: what stands in a tree can be read and written.

Names and paths are limited in length, counted in bytes.  A path that is too long
leads nowhere, and neither does one with a name that is too long, wherever in the
path the name stands.  So a directory can hold what cannot be opened under the path
by which it was reached (`Tree.refusal?`).

Resolution ends at a node, or at a *vacant* place: a name that an existing
directory does not have.  Only a vacant place can be filled.
-/

namespace BuildMatrix

/-! ## Nodes and trees -/

/-- The names on the way from the root directory. -/
abbrev Location := List String

/-- Bytes are compared as they are. -/
local instance (priority := high) decidableEqBytes : DecidableEq ByteArray :=
  ByteArray.instDecidableEq

/-- What a tree holds at a location. -/
inductive Node where
  /-- A directory. -/
  | directory
  /-- A file with its bytes. -/
  | file (content : ByteArray)
  /-- A symbolic link to a path. -/
  | link (target : Path)
  deriving DecidableEq

/-- A file tree with a working directory. -/
structure Tree where
  /-- The nodes below the root directory. -/
  nodes : SortedMap Location Node
  /-- The working directory, from which relative paths start. -/
  here : Location
  deriving DecidableEq

/-- Why the file system refuses. -/
inductive Trouble where
  /-- Something on the way does not exist. -/
  | notFound
  /-- Something on the way is not a directory. -/
  | notDirectory
  /-- The place is a directory. -/
  | isDirectory
  /-- The place is taken. -/
  | alreadyExists
  /-- Too many links on the way. -/
  | tooManyLinks
  /-- The path, or a name on the way, is too long. -/
  | nameTooLong
  /-- The path holds U+0000, which no name may. -/
  | badName
  /-- The bytes are not text. -/
  | notText
  /-- Anything else, in the system's words. -/
  | other (message : String)
  deriving DecidableEq

/-- The system's wording of a refusal. -/
def Trouble.message : Trouble → String
  | .notFound => "No such file or directory (os error 2)"
  | .notDirectory => "Not a directory (os error 20)"
  | .isDirectory => "Is a directory (os error 21)"
  | .alreadyExists => "File exists (os error 17)"
  | .tooManyLinks => "Too many levels of symbolic links (os error 40)"
  | .nameTooLong => "File name too long (os error 36)"
  | .badName => "file name contained an unexpected NUL byte"
  | .notText => "stream did not contain valid UTF-8"
  | .other message => message

/-- Where a path leads. -/
inductive Place where
  /-- To a node. -/
  | taken (location : Location) (node : Node)
  /-- To a name that a directory does not have. -/
  | vacant (directory : Location) (name : String)
  deriving DecidableEq

/-- What a path is followed for. -/
inductive Aim where
  /-- For what has the last name, a link itself and not its target. -/
  | entry
  /-- For what the path leads to through all links. -/
  | node
  /-- For a file to be written, through all links.  No slash may follow its name, whatever has the
  name, and no slash may end the target of a link in last place. -/
  | file
  deriving DecidableEq

namespace Tree

/-- The tree without nodes, standing at the root directory. -/
def empty : Tree := ⟨SortedMap.empty, []⟩

/-- The node at a location. -/
def node? (t : Tree) (location : Location) : Option Node :=
  if location = [] then some .directory else t.nodes.get? location

def put (t : Tree) (location : Location) (node : Node) : Tree :=
  { t with nodes := t.nodes.insert location node }

/-- The tree without a location and everything below it. -/
def erase (t : Tree) (location : Location) : Tree :=
  { t with nodes := t.nodes.filterKeys fun key => !location.isPrefixOf key }

/-! ## Resolution -/

/-- The number of links that one resolution follows. -/
def linkLimit : Nat := 40

/-- The greatest number of bytes in a name. -/
def nameLimit : Nat := 255

/-- The greatest number of bytes in a path. -/
def pathLimit : Nat := 4095

/-- Follow the pieces of a path from a directory, with `links` links left to follow. -/
def resolve (t : Tree) (aim : Aim) (links : Nat) (dir : Location) (pieces : List String) :
    Except Trouble Place :=
  match pieces with
  | [] =>
      match t.node? dir with
      | some node => .ok (.taken dir node)
      | none => .error .notFound
  | piece :: rest =>
      if t.node? dir ≠ some .directory then .error .notDirectory
      else if piece = "" ∨ piece = "." then resolve t aim links dir rest
      else if piece = ".." then resolve t aim links dir.dropLast rest
      else if aim = .file ∧ rest ≠ [] ∧ rest.all (· = "") then .error .isDirectory
      else if nameLimit < piece.utf8ByteSize then .error .nameTooLong
      else
        match t.node? (dir ++ [piece]), rest, links with
        | none, [], _ => .ok (.vacant dir piece)
        | none, _ :: _, _ => .error .notFound
        | some (.link target), rest, links =>
            if rest = [] ∧ aim = .entry then .ok (.taken (dir ++ [piece]) (.link target))
            else
              match links with
              | 0 => .error .tooManyLinks
              | links + 1 =>
                  resolve t aim links (if target.isAbsolute then [] else dir)
                    (target.pieces ++ rest)
        | some _, rest, links => resolve t aim links (dir ++ [piece]) rest
termination_by (links, pieces.length)

/-- Where the pieces of a path lead.  No path is empty, holds U+0000 or is too long. -/
def follow (t : Tree) (aim : Aim) (p : Path) (pieces : List String) : Except Trouble Place :=
  if p.text = "" then .error .notFound
  else if p.text.toList.contains '\x00' then .error .badName
  else if pathLimit < p.text.utf8ByteSize then .error .nameTooLong
  else t.resolve aim linkLimit (if p.isAbsolute then [] else t.here) pieces

/-- Where a path leads. -/
def locate (t : Tree) (aim : Aim) (p : Path) : Except Trouble Place :=
  t.follow aim p p.pieces

/-! ## Spelling -/

/-- The path of a location, from the root directory. -/
def pathOf (location : Location) : Path := ⟨"/" ++ "/".intercalate location⟩

/-- A path, spelled from the root directory. -/
def fromRoot (t : Tree) (p : Path) : Path := (pathOf t.here).join p

/-! ## Questions -/

/-- The location and node that a path leads to, through all links. -/
def find? (t : Tree) (p : Path) : Option (Location × Node) :=
  match t.locate .node p with
  | .ok (.taken location node) => some (location, node)
  | _ => none

/-- Whether a path leads to something. -/
def reaches (t : Tree) (p : Path) : Bool := (t.find? p).isSome

/-- The location of the directory that a path leads to. -/
def directory? (t : Tree) (p : Path) : Option Location :=
  match t.find? p with
  | some (location, .directory) => some location
  | _ => none

/-- Whether a path leads to a directory. -/
def isDirectory (t : Tree) (p : Path) : Bool := (t.directory? p).isSome

/-- The bytes of the file that a path leads to. -/
def read (t : Tree) (p : Path) : Except Trouble ByteArray :=
  match t.locate .node p with
  | .ok (.taken _ (.file content)) => .ok content
  | .ok (.taken _ _) => .error .isDirectory
  | .ok (.vacant _ _) => .error .notFound
  | .error trouble => .error trouble

/-- The text of the file that a path leads to, if it is UTF-8. -/
def readText (t : Tree) (p : Path) : Except Trouble String :=
  match t.read p with
  | .ok content =>
      match String.fromUTF8? content with
      | some text => .ok text
      | none => .error .notText
  | .error trouble => .error trouble

/-- Why what stands at a path cannot be opened under it, if it cannot. -/
def refusal? (p : Path) : Option Trouble :=
  if pathLimit < p.text.utf8ByteSize then some .nameTooLong else none

/-- What lies below a directory, each with the names that lead there, in order: a directory before
what it holds, siblings by name.  Links are not followed. -/
def below (t : Tree) (dir : Location) : List (List String × Node) :=
  t.nodes.entries.filterMap fun e =>
    if dir.isPrefixOf e.1 ∧ e.1 ≠ dir then some (e.1.drop dir.length, e.2) else none

end Tree

/-! ## Tests -/

/-- A slash after the name of a file to be written is at fault before the name is looked up. -/
example : Tree.empty.locate .file ⟨"a/"⟩ = .error .isDirectory ∧
    Tree.empty.locate .node ⟨"a/"⟩ = .error .notFound ∧
    Tree.empty.locate .file ⟨"a"⟩ = .ok (.vacant [] "a") := by
  cbv

end BuildMatrix
