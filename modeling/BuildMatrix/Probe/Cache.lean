import BuildMatrix.Flag
import BuildMatrix.Json
import BuildMatrix.Tree.Write

/-!
# The probe cache

What a compiler was found to accept is remembered in a *cache*: one verdict for
each flag set that was tried, for one compiler.  Between runs it is kept in a
file as a JSON object with the compiler's key and an object of verdicts, each
flag set encoded as one member name.

Reading the file never fails.  A file that is missing, is not of this form or was
written for another compiler gives the cache without verdicts.  A list of the two
values in place of the outer object is understood as well, and members that the
cache does not know are passed over.

Verdicts are written in the order of their flag sets and read in the order of
their names, and of two with the same name, or with names for the same flag set,
the later counts.
-/

namespace BuildMatrix

/-! ## The contents of a cache file -/

/-- What a cache file says. -/
structure CacheFile where
  compiler : String
  /-- The verdicts under the encodings of their flag sets. -/
  flags : SortedMap String Bool
  deriving DecidableEq

namespace CacheFile

/-- One verdict as a line of the file. -/
def renderEntry (e : String × Bool) : String :=
  "    " ++ Json.quote e.1 ++ ": " ++ (if e.2 then "true" else "false")

def render (f : CacheFile) : String :=
  "\x7b\n  \"compiler\": " ++ Json.quote f.compiler ++ ",\n  \"flags\": " ++
    (if f.flags.isEmpty then "\x7b\x7d"
      else "\x7b\n" ++ ",\n".intercalate (f.flags.entries.map renderEntry) ++ "\n  \x7d") ++
    "\n\x7d"

/-- The text that a JSON value is. -/
def textOf? : Json → Option String
  | .string text => text
  | _ => none

/-- The verdict that a member of the inner object is. -/
def verdictOf? : Option String × Json → Option (String × Bool)
  | (some name, .bool verdict) => some (name, verdict)
  | _ => none

/-- The verdicts that a JSON value holds. -/
def verdictsOf? : Json → Option (SortedMap String Bool)
  | .object members => (members.mapM verdictOf?).map SortedMap.ofList
  | _ => none

/-- The value of the only member of a name. -/
def only? (name : String) (members : List (String × Json)) : Option Json :=
  match members.filter (·.1 = name) with
  | [member] => some member.2
  | _ => none

/-- The contents that a JSON value holds. -/
def ofJson? : Json → Option CacheFile
  | .object members => do
      let members ← members.mapM fun member => member.1.map (·, member.2)
      let compiler ← (only? "compiler" members).bind textOf?
      let flags ← (only? "flags" members).bind verdictsOf?
      some ⟨compiler, flags⟩
  | .array [compiler, flags] => do
      some ⟨← textOf? compiler, ← verdictsOf? flags⟩
  | _ => none

/-- The contents that a text spells. -/
def parse? (text : String) : Option CacheFile := (Json.parse? text).bind ofJson?

end CacheFile

/-! ## Caches -/

/-- Verdicts on flag sets, for one compiler. -/
structure Cache where
  compiler : String
  verdicts : SortedMap FlagSet Bool
  deriving DecidableEq

namespace Cache

def empty (compiler : String) : Cache := ⟨compiler, SortedMap.empty⟩

/-- The verdict on a flag set, if there is one. -/
def get? (c : Cache) (flags : FlagSet) : Option Bool := c.verdicts.get? flags

def insert (c : Cache) (flags : FlagSet) (verdict : Bool) : Cache :=
  { c with verdicts := c.verdicts.insert flags verdict }

def size (c : Cache) : Nat := c.verdicts.size

def toFile (c : Cache) : CacheFile :=
  ⟨c.compiler, SortedMap.ofList (c.verdicts.entries.map fun e => (FlagSet.encode e.1, e.2))⟩

def ofFile (f : CacheFile) : Cache :=
  ⟨f.compiler, SortedMap.ofList (f.flags.entries.map fun e => (FlagSet.decode e.1, e.2))⟩

/-! ## Loading and saving -/

/-- The cache for a compiler that a text describes; without verdicts if the text is none or is for
another compiler. -/
def ofText (compiler : String) (text : Option String) : Cache :=
  match text.bind CacheFile.parse? with
  | some file => if file.compiler = compiler then ofFile file else empty compiler
  | none => empty compiler

/-- The cache for a compiler that is kept in a file, and what the user is told about it. -/
def load (t : Tree) (p : Path) (compiler : String) : Cache × List String :=
  if t.reaches p then
    let text := (t.readText p).toOption
    let told := match text.bind CacheFile.parse? with
      | some file =>
          if file.compiler = compiler then []
          else ["Compiler is different. Discarding cached configuration."]
      | none => []
    (ofText compiler text, "Loading cached configuration" :: told)
  else (empty compiler, [])

/-- Keep the cache in a file, in place of what is there. -/
def save (c : Cache) (p : Path) : Task WriteFailure Tree Unit := Tree.replaceText p c.toFile.render

end Cache

/-! ## Tests -/

example : (CacheFile.mk "GCC:cc" SortedMap.empty).render =
    "\x7b\n  \"compiler\": \"GCC:cc\",\n  \"flags\": \x7b\x7d\n\x7d" := by decide +kernel

end BuildMatrix
