import BuildMatrix.Probe.Cache
import BuildMatrix.Probe.Inquiry
import BuildMatrix.World

/-!
# Probing

A compiler accepts a flag set if it builds a tiny program with strict warnings,
warnings as errors, and these flags.  Nothing else is taken as evidence.  A
compiler that cannot be run, or that fails, does not accept the flags.

A `Prober` puts each flag set to the compiler at most once: it looks into the
cache first and remembers every verdict there.  The program is written to the
scratch directory before the first command and not again.  Only that can fail,
and then nothing is run and nothing is remembered.
-/

namespace BuildMatrix

open Text

/-! ## The program -/

/-- The program that is compiled with the flags in question.  Reading from an array draws in the
run-time parts of sanitizers, comparing two pointers from it keeps warnings about zero pointers
quiet, and the header makes the checks behind `_FORTIFY_SOURCE` take effect. -/
def probeSource : String :=
  "\n#include <stdlib.h>\n\nint main(int argc, char** argv) \x7b\n" ++
  "    return argv[argc - 1] == argv[0];\n\x7d\n"

/-- The name of the program without its extension. -/
def probeStem : String := "flagtest"

/-! ## Probers -/

/-- Who asks: the compiler, the way to run it and the directory for the program. -/
structure Prober where
  toolchain : Toolchain
  runner : Runner
  /-- The directory for the program. -/
  scratch : Path

/-- What probing reads and changes. -/
structure Probing where
  /-- The verdicts so far. -/
  cache : Cache
  /-- Whether the program was written. -/
  sourceWritten : Bool := false
  /-- The number of commands run. -/
  invocations : Nat := 0
  world : World

/-- Work on the world as a part of probing. -/
def Probing.onWorld {α : Type} (task : Task Failure World α) : Task Failure Probing α :=
  task.within Probing.world (fun world s => { s with world }) id

namespace Prober

/-- The path of the program's source. -/
def source (p : Prober) : Path := p.scratch.child (probeStem ++ ".c")

/-- The path of the program. -/
def exe (p : Prober) : Path := p.scratch.child (probeStem ++ p.toolchain.exeExtension)

/-- The command that puts a flag set to the compiler. -/
def command (p : Prober) (flags : FlagSet) : Command :=
  p.toolchain.probeCommand p.source p.exe flags

/-- Write the program, unless that was done. -/
def ensureSource (p : Prober) : Task Failure Probing Unit := do
  if (← get).sourceWritten then return
  Probing.onWorld (World.onTree (Tree.writeText p.source probeSource))
  modify fun s => { s with sourceWritten := true }

/-- What the user is told about a verdict. -/
def report (flags : FlagSet) (verdict : Bool) : String :=
  "Testing flag(s): " ++ FlagSet.text flags ++ " ... " ++
    if verdict then "Supported." else "Not supported."

/-- Run the command for a flag set and remember the verdict. -/
def probe (p : Prober) (flags : FlagSet) (s : Probing) : Bool × Probing :=
  let (answer, calls) := p.runner.ask s.world.calls (p.command flags)
  let verdict := answer.any Output.success
  (verdict,
    { s with
      cache := s.cache.insert flags verdict
      invocations := s.invocations + 1
      world := { s.world with calls, told := s.world.told ++ [report flags verdict] } })

/-- The verdict on a flag set, from the cache or from the compiler. -/
def check (p : Prober) (flags : FlagSet) : Task Failure Probing Bool := do
  match (← get).cache.get? flags with
  | some verdict => return verdict
  | none =>
      p.ensureSource
      Task.step (p.probe flags)

/-- The flags if they are accepted, otherwise none. -/
def ifSupported (p : Prober) (flags : FlagSet) : Task Failure Probing (List String) := do
  return if ← p.check flags then flags else []

/-- Carry out an inquiry. -/
def carryOut {α : Type} (p : Prober) (inquiry : Inquiry α) : Task Failure Probing α :=
  inquiry.perform p.check

end Prober

end BuildMatrix
