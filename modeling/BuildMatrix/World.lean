import BuildMatrix.Compiler.Detect
import BuildMatrix.Source.Discovery
import BuildMatrix.Tree.Write

/-!
# The world of a run

What a run reads and changes outside itself: the file tree, the commands that
were run, and what the user was told on the way.  All of it only grows or is
replaced by tasks of this library, so a run is a function from one world to the
next.

The user is told what was done.  Warnings are left out: of settings that cannot be
read, of a cache that is none, of a probe that cannot be run, and of a cache that
cannot be saved after a failure.  So are details that only a search for errors needs.

A run fails for a named cause.  `Failure.message` is the outermost wording;
`Failure.report` adds what lies behind it.
-/

namespace BuildMatrix

/-- What a run reads and changes outside itself. -/
structure World where
  tree : Tree
  /-- The commands run so far, oldest first. -/
  calls : List Command := []
  /-- What the user was told so far, oldest first, but for warnings. -/
  told : List String := []

/-- Why a run failed. -/
inductive Failure where
  /-- The compiler is not on the search path. -/
  | compilerNotFound (name : String)
  /-- A program could not be run. -/
  | spawn (program : Path) (cause : Trouble)
  /-- A change of the file tree failed. -/
  | write (failure : WriteFailure)
  /-- The sources could not be found. -/
  | search (failure : SearchFailure)
  /-- The build graph that was made is not valid. -/
  | inconsistent (error : GraphError)
  /-- The work gave up for a reason of its own. -/
  | gaveUp (reason : String)
  deriving DecidableEq

/-- What failed, in words. -/
def Failure.message : Failure → String
  | .compilerNotFound name => "compiler cannot be found: `" ++ name ++ "`"
  | .spawn program _ => "failed to spawn `" ++ program.text ++ "`"
  | .write failure => failure.message
  | .search failure => failure.message
  | .inconsistent error => "generated build graph is inconsistent: " ++ error.message
  | .gaveUp reason => reason

/-- What failed and why, in words. -/
def Failure.report (f : Failure) : String :=
  match f with
  | .spawn _ cause => f.message ++ ": " ++ cause.message
  | .write failure => f.message ++ ": " ++ failure.cause.message
  | .search failure => f.message ++ ": " ++ failure.reason
  | _ => f.message

namespace World

/-- Tell the user something. -/
def tell (message : String) : Task Failure World Unit :=
  modify fun w => { w with told := w.told ++ [message] }

/-- A change of the file tree as work on the world. -/
def onTree {α : Type} (task : Task WriteFailure Tree α) : Task Failure World α :=
  task.within World.tree (fun tree w => { w with tree }) .write

/-- Run a command. -/
def run (runner : Runner) (command : Command) : Task Failure World Output := fun w =>
  let ran := { w with calls := w.calls ++ [command] }
  match runner.answer w.calls command with
  | .ok output => .ok output ran
  | .error cause => .error (.spawn command.program cause) ran

/-- Choose the compiler and tell the user which one it is. -/
def detect (runner : Runner) (asked : Option String) : Task Failure World Toolchain := do
  let w ← get
  let (found, calls) := selectCompiler runner asked w.calls
  set { w with calls }
  match found with
  | .error name => throw (.compilerNotFound name)
  | .ok identity =>
      tell ("Using " ++ identity.family.name ++ " compiler with executable: " ++ identity.cc)
      return ⟨identity⟩

end World

end BuildMatrix
