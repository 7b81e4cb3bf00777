import BuildMatrix.CommandLine.Run

/-!
# The program and its host

The program reads no file and starts no process by itself.  Its *host* does both,
and the two talk in lines.  A line is a JSON list of texts, a `Message`; bytes are
written in hexadecimal.

First the host sets the scene: the file tree, the programs on the search path and
the variables of the process environment.

* `here PATH` gives the working directory.
* `directory PATH`, `file PATH BYTES` and `link PATH TARGET` give a node of the tree.
* `program NAME PATH` gives an executable, `variable NAME VALUE` a variable.
* `start` ends the scene.

Then the program asks for commands to be run, each with `run PROGRAM ARGUMENT …`.
The host answers `ended STATUS BYTES BYTES`, `killed BYTES BYTES` or `refused`.  At
last the program says what has changed in the tree, `remove PATH` or a node as
above, then `stdout BYTES` and `stderr BYTES`.

A run is a function of the answers, so the program finds its next question by
running with the answers it has (`Scene.turn`).  The first command without an
answer is the question: whatever was run before had its answer.
-/

namespace BuildMatrix.CommandLine

open Text

/-! ## Messages -/

/-- A line of the dialogue. -/
abbrev Message := List String

def Message.read? (line : String) : Option Message := do
  match ← Json.parse? line with
  | .array items => items.mapM CacheFile.textOf?
  | _ => none

def Message.text (m : Message) : String := "[" ++ ",".intercalate (m.map Json.quote) ++ "]"

def hexOf (bytes : ByteArray) : String :=
  String.ofList (bytes.toList.flatMap fun b => [hexDigit (b.toNat / 16), hexDigit (b.toNat % 16)])

/-- The bytes that pairs of digits spell, up to the first that is no pair. -/
def bytesOf : List Char → List UInt8
  | a :: b :: rest =>
      match digitsValue? 16 [a, b] with
      | some n => UInt8.ofNat n :: bytesOf rest
      | none => []
  | _ => []

/-- The bytes that a text spells in hexadecimal. -/
def ofHex (text : String) : ByteArray := ⟨(bytesOf text.toList).toArray⟩

/-! ## Scenes -/

/-- What a host tells about the machine. -/
structure Scene where
  tree : Tree := Tree.empty
  programs : List (String × Path) := []
  environment : List (String × String) := []

namespace Scene

/-- The location that an absolute path spells. -/
def locationOf (path : String) : Location := (pieces '/' path).filter (· ≠ "")

def put (s : Scene) (path : String) (node : Node) : Scene :=
  { s with tree := s.tree.put (locationOf path) node }

/-- The scene after a message of the host. -/
def hear (s : Scene) : Message → Scene
  | ["here", path] => { s with tree := { s.tree with here := locationOf path } }
  | ["directory", path] => s.put path .directory
  | ["file", path, bytes] => s.put path (.file (ofHex bytes))
  | ["link", path, target] => s.put path (.link ⟨target⟩)
  | ["program", name, path] => { s with programs := s.programs ++ [(name, ⟨path⟩)] }
  | ["variable", name, value] => { s with environment := s.environment ++ [(name, value)] }
  | _ => s

/-- The machine of a scene, with the answers that the host has given so far. -/
def runner (s : Scene) (answers : List (Except Trouble Output)) : Runner where
  find? := fun name => s.programs.lookup name
  answer := fun calls _ => answers[calls.length]?.getD (.error .notFound)

end Scene

/-- The answer of a host to a question. -/
def answerOf : Message → Except Trouble Output
  | ["ended", status, stdout, stderr] =>
      .ok (.ofBytes (status.toInt?.getD 1) (ofHex stdout) (ofHex stderr))
  | ["killed", stdout, stderr] => .ok (.ofBytes none (ofHex stdout) (ofHex stderr))
  | _ => .error .notFound

/-! ## Turns -/

/-- What the program says next. -/
inductive Turn where
  /-- It asks for a command to be run. -/
  | question (message : Message)
  /-- It says what has changed and ends with a status. -/
  | farewell (messages : List Message) (status : Nat)

def nodeMessage (location : Location) : Node → Message
  | .directory => ["directory", (Tree.pathOf location).text]
  | .file content => ["file", (Tree.pathOf location).text, hexOf content]
  | .link target => ["link", (Tree.pathOf location).text, target.text]

/-- What is different in a second tree: what is gone, then what is new. -/
def changes (old new : Tree) : List Message :=
  ((old.nodes.entries.filter fun e => (new.nodes.get? e.1).isNone).map fun e =>
      ["remove", (Tree.pathOf e.1).text]) ++
    (new.nodes.entries.filter fun e => old.nodes.get? e.1 ≠ some e.2).map fun e =>
      nodeMessage e.1 e.2

/-- What the program says next after the answers it has. -/
def Scene.turn (s : Scene) (words : List String) (answers : List (Except Trouble Output)) : Turn :=
  let lookup (name : String) : Option String := s.environment.lookup name
  let (report, after) := run (s.runner answers) lookup words { tree := s.tree }
  match after.calls[answers.length]? with
  | some command => .question ("run" :: command.program.text :: command.arguments)
  | none =>
      .farewell
        (changes s.tree after.tree ++
          [["stdout", hexOf report.stdout.toUTF8], ["stderr", hexOf report.stderr.toUTF8]])
        report.status

/-! ## Tests -/

example : bytesOf ['6', '1', 'f', 'F'] = [0x61, 0xFF] := by decide

example : Scene.locationOf "/a//b" = ["a", "b"] ∧ Tree.pathOf ["a", "b"] = ⟨"/a/b"⟩ := by decide

end BuildMatrix.CommandLine
