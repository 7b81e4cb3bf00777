import BuildMatrix.Compiler.Dialect

/-!
# Finding the compiler

The compiler is the one that was asked for, or else `cl` where its launcher is on
the search path, or else `cc`.  It has to be on the search path itself.

Its family follows from the first decisive evidence.  Two names settle it, in any
case of letters.  Then the end of the file name may be that of a small compiler.
Otherwise the compiler is asked for its version, and if that tells nothing it is
asked to be verbose.  An answer counts only if the compiler ran and succeeded.
What an answer tells (`familyOfVersion?`, `familyOfVerbose?`) is kept apart from asking
for it.
-/

namespace BuildMatrix

open Text

/-! ## What a name tells -/

/-- The file name of the launcher of Visual C++. -/
def msvcLauncher : String := "cl.exe"

/-- The ends of file names that tell a small compiler, in the order in which they are tried. -/
def smallCompilers : List (String × Family) :=
  [("cproc", .cproc), ("chibicc", .chibicc), ("8cc", .eightCc)]

/-- The letters of a text in lower case, ASCII letters only.  No other character has a lower-case
form among the characters of the names that are compared. -/
def lowerCase (text : String) : String := text.map Char.toLower

/-- The family that a compiler's name tells. -/
def familyOfName? (cc : String) : Option Family :=
  if lowerCase cc = "cl" ∨ lowerCase cc = msvcLauncher then some .msvc
  else
    let fileName := ((Path.mk cc).fileName?).getD cc
    (smallCompilers.find? fun small => endsWith small.1 fileName).map Prod.snd

/-! ## What an answer tells -/

/-- The family that the answer to a question for the version tells. -/
def familyOfVersion? (answer : Output) : Option Family :=
  if !answer.success then none
  else if beginsWith "cparser " answer.stdout then some .cparser
  else if occursIn "clang" answer.stdout then some .clang
  else none

/-- The family that one line of a verbose answer tells. -/
def familyOfLine? (line : String) : Option Family :=
  if beginsWith "tcc " line then some .tinyCc
  else if beginsWith "gcc " line then some .gcc
  else none

/-- The family that a verbose answer tells: the first line that tells one counts, those of standard
output before those of standard error. -/
def familyOfVerbose? (answer : Output) : Option Family :=
  if !answer.success then none
  else (lines (answer.stdout ++ "\n" ++ answer.stderr)).findSome? familyOfLine?

/-! ## Asking -/

/-- A question to a compiler, given the commands run so far.  The answer is none if the compiler
could not be run. -/
def Runner.ask (runner : Runner) (calls : List Command) (command : Command) :
    Option Output × List Command :=
  ((runner.answer calls command).toOption, calls ++ [command])

/-- The family of a compiler, and the commands run so far with those run to find out. -/
def classify (runner : Runner) (cc : String) (path : Path) (calls : List Command) :
    Family × List Command :=
  match familyOfName? cc with
  | some family => (family, calls)
  | none =>
      let (version, calls) := runner.ask calls ⟨path, ["--version"]⟩
      match version.bind familyOfVersion? with
      | some family => (family, calls)
      | none =>
          let (verbose, calls) := runner.ask calls ⟨path, ["-v"]⟩
          ((verbose.bind familyOfVerbose?).getD .unknown, calls)

/-- The name of the compiler to use. -/
def chooseName (runner : Runner) (asked : Option String) : String :=
  match asked with
  | some cc => cc
  | none => if (runner.find? msvcLauncher).isSome then "cl" else "cc"

/-- The compiler to use; fails with its name if it is not on the search path. -/
def selectCompiler (runner : Runner) (asked : Option String) (calls : List Command) :
    Except String Identity × List Command :=
  let cc := chooseName runner asked
  match runner.find? cc with
  | none => (.error cc, calls)
  | some path =>
      let (family, calls) := classify runner cc path calls
      (.ok ⟨family, cc, path⟩, calls)

end BuildMatrix
