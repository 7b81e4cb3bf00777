import BuildMatrix.Text.Part
import BuildMatrix.Text.Utf8

/-!
# Paths

A path is a text with slashes in it.  It is shown as it was written: nothing is
normalised.  What a path *means* is its list of components, and two spellings
with the same components lead to the same place.

The *pieces* of a path are what lies between its slashes.  An empty piece means
nothing, and neither does `.`, except as the first piece of a relative path,
where it is a component of its own.  A path is absolute if it begins with a
slash.  The backslash is an ordinary character.

A path is a text here.  A system may know names that are no text; how paths with such
names are shown is said by `slashedBytes`.

`ancestors` lists the paths above a path, nearest first, each without idle
pieces at its end.  It recurses on the pieces, so a loop over the ancestors of a
path is a recursion on a list.
-/

namespace BuildMatrix

open Text

/-- A file path, as written. -/
structure Path where
  text : String
  deriving DecidableEq, Inhabited

/-- A step that a path takes. -/
inductive Component where
  /-- Start at the root directory. -/
  | root
  /-- Start at the working directory, said explicitly. -/
  | here
  /-- Go to the parent directory. -/
  | up
  /-- Go to the entry of this name. -/
  | name (name : String)
  deriving DecidableEq, Inhabited

/-- The spelling of a component. -/
def Component.text : Component → String
  | .root => "/"
  | .here => "."
  | .up => ".."
  | .name given => given

namespace Path

/-! ## Pieces and components -/

/-- What lies between the slashes, empty pieces included. -/
def pieces (p : Path) : List String := Text.pieces '/' p.text

/-- Whether the path starts at the root directory. -/
def isAbsolute (p : Path) : Bool := p.text.toList.head? = some '/'

/-- The component that a piece stands for; none for an idle piece. -/
def component? (piece : String) : Option Component :=
  if piece = "" ∨ piece = "." then none
  else if piece = ".." then some .up
  else some (.name piece)

/-- The components of a path, from its start. -/
def components (p : Path) : List Component :=
  match p.pieces with
  | "." :: rest => .here :: rest.filterMap component?
  | all => (if p.isAbsolute then [.root] else []) ++ all.filterMap component?

/-- Whether the components of `base` are the first components of the path. -/
def startsWith (p base : Path) : Bool := base.components.isPrefixOf p.components

/-- The name of the file that the path leads to, if its last component is a name. -/
def fileName? (p : Path) : Option String :=
  match p.components.getLast? with
  | some (.name given) => some given
  | _ => none

/-- What follows the last dot of a file name.  A name whose only dot comes first has no extension. -/
def extensionOf? (name : String) : Option String :=
  match (name.toList.splitOn '.').reverse with
  | [] | [_] | [_, []] => none
  | last :: _ => some (String.ofList last)

def extension? (p : Path) : Option String := p.fileName?.bind extensionOf?

/-! ## Joining -/

/-- The path `q`, followed from `p`.  An absolute `q` stands for itself. -/
def join (p q : Path) : Path :=
  if q.isAbsolute then q
  else if p.text = "" ∨ p.text.toList.getLast? = some '/' then ⟨p.text ++ q.text⟩
  else ⟨p.text ++ "/" ++ q.text⟩

/-- The path with the given name below `p`. -/
def child (p : Path) (name : String) : Path := p.join ⟨name⟩

def ofComponents (cs : List Component) : Path := cs.foldl (fun p c => p.child c.text) ⟨""⟩

/-! ## Going up -/

/-- The lists of pieces that name the places on the way to the last piece, longest first, given the
pieces in reverse.  A list that would end in an idle piece is left out; `.` at the start of a
relative path is not idle. -/
def placesAbove (absolute : Bool) : List String → List (List String)
  | [] => []
  | piece :: rest =>
      if piece = "" ∨ (piece = "." ∧ (absolute ∨ rest ≠ [])) then placesAbove absolute rest
      else (piece :: rest).reverse :: placesAbove absolute rest
termination_by structural pieces => pieces

/-- The places on the way to `p`, the place of `p` itself first, without idle pieces at the end.
The last one is the root of an absolute path and the empty path of a relative one. -/
def places (p : Path) : List Path :=
  if p.isAbsolute then
    (placesAbove true (p.pieces.drop 1).reverse).map (fun ps => ⟨"/" ++ "/".intercalate ps⟩) ++ [⟨"/"⟩]
  else
    (placesAbove false p.pieces.reverse).map (fun ps => ⟨"/".intercalate ps⟩) ++ [⟨""⟩]

/-- The paths above `p`, nearest first. -/
def ancestors (p : Path) : List Path := p.places.drop 1

/-- The path of the directory that holds `p`. -/
def parent? (p : Path) : Option Path := p.ancestors.head?

/-! ## Slashes -/

/-- The spelling of the path with every backslash turned into a slash. -/
def slashed (p : Path) : String := swap '\\' '/' p.text

/-- The same for a path that is given by its bytes, of which those that are not UTF-8 are marked. -/
def slashedBytes (bytes : ByteArray) : String := swap '\\' '/' (ofBytes bytes)

end Path

/-! ## Tests -/

example : (Path.mk "./a//b/.").components = [.here, .name "a", .name "b"] := by decide

example : (Path.mk "/..").components = [.root, .up] ∧ (Path.mk "").components = [] := by decide

example : (Path.mk "a/./b//").parent? = some ⟨"a"⟩ ∧ (Path.mk "//a").parent? = some ⟨"/"⟩ := by
  decide +kernel

example : (Path.mk ".").parent? = some ⟨""⟩ ∧ (Path.mk "/").parent? = none := by decide

example : ((Path.mk "a").join ⟨""⟩).text = "a/" ∧ ((Path.mk "a/").join ⟨"b"⟩).text = "a/b" := by decide

example : Path.extensionOf? ".c" = none ∧ Path.extensionOf? "a." = some "" ∧
    Path.extensionOf? "..c" = some "c" := by decide

end BuildMatrix
