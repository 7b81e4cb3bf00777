import BuildMatrix.Text.Part
import BuildMatrix.Tree

/-!
# Processes

A command is a program and its arguments, an output is what a finished process
leaves.  A `Runner` is the way to the programs of the machine: it finds
executables by name and runs commands.  What it answers may depend on all
commands run before, so a compiler is free to change its mind.  A runner does
not write to the file tree.
-/

namespace BuildMatrix

open Text

/-- A program with its arguments. -/
structure Command where
  program : Path
  arguments : List String
  deriving DecidableEq

/-- The program and its arguments as one line of text. -/
def Command.display (c : Command) : String := spaced (c.program.text :: c.arguments)

/-- What a finished process leaves. -/
structure Output where
  /-- The exit status; none if a signal ended the process. -/
  status : Option Int
  /-- What it wrote to standard output. -/
  stdout : String
  /-- What it wrote to standard error. -/
  stderr : String
  deriving DecidableEq

/-- Whether the process exited with status zero. -/
def Output.success (o : Output) : Bool := o.status = some 0

/-- The output of a process that wrote these bytes. -/
def Output.ofBytes (status : Option Int) (stdout stderr : ByteArray) : Output :=
  ⟨status, Text.ofBytes stdout, Text.ofBytes stderr⟩

/-- Access to the programs of the machine. -/
structure Runner where
  /-- The executable of a name on the search path. -/
  find? : String → Option Path
  /-- The outcome of a command, given all commands run before it, oldest first. -/
  answer : List Command → Command → Except Trouble Output

end BuildMatrix
