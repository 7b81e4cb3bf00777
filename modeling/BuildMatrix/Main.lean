import BuildMatrix.CommandLine.Dialogue

/-!
# The program

Reads the messages of the host and writes its own until a turn is a farewell.
What to say is decided by `Scene.turn`; here are only the two channels.
-/

open BuildMatrix CommandLine

/-- The next message of the host; none at the end of its lines. -/
partial def nextMessage (host : IO.FS.Stream) : IO (Option Message) := do
  let line ← host.getLine
  if line.isEmpty then return none
  match Message.read? line with
  | some message => return some message
  | none => nextMessage host

/-- Hear the host until it starts the program or has no more to say. -/
partial def hearScene (host : IO.FS.Stream) (s : Scene) : IO Scene := do
  match ← nextMessage host with
  | none => return s
  | some ["start"] => return s
  | some message => hearScene host (s.hear message)

/-- Take turns with the host until the farewell; the result is the exit status. -/
partial def converse (host : IO.FS.Stream) (s : Scene) (words : List String)
    (answers : List (Except Trouble Output)) : IO UInt32 := do
  match s.turn words answers with
  | .question message =>
      IO.println message.text
      (← IO.getStdout).flush
      let answer ← nextMessage host
      converse host s words (answers ++ [answerOf (answer.getD [])])
  | .farewell messages status =>
      for message in messages do
        IO.println message.text
      return status.toUInt32

/-- The program, with the words of its command line. -/
def main (words : List String) : IO UInt32 := do
  let host ← IO.getStdin
  converse host (← hearScene host {}) words []
