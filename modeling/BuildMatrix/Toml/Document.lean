import BuildMatrix.Toml
import BuildMatrix.Toml.Moment
import BuildMatrix.Toml.Number
import BuildMatrix.Toml.Quoted

/-!
# TOML documents

A document is a list of statements, one on each line that is neither empty nor a
comment: a key with a value, or a header in single or double brackets.  Values in
brackets may take up several lines.  The end of the text ends the last line, and a
byte order mark may stand in front of everything.

A line ends with a line feed, with or without a carriage return before it.  A
carriage return stands nowhere else.

Lists and tables may be nested less than `nestingLimit` deep, and a dotted key has
fewer parts than that.  The limits are what the recursion of `value` and
`keyParts` goes down on; the other loops are bounded by the length of the text.
-/

namespace BuildMatrix.Toml

open Form (isBlank)

/-- The depth that values may not reach, and the number of parts that a key may not reach. -/
def nestingLimit : Nat := 80

/-! ## Blanks, comments and line ends -/

/-- The text after its blanks. -/
def skipBlanks (s : List Char) : List Char := s.dropWhile isBlank

/-- What follows the rest of a line that says nothing more, with its comment and its end. -/
def lineEnd? (s : List Char) : Option (List Char) :=
  let s := match skipBlanks s with
    | '#' :: rest => rest.dropWhile Form.plain
    | s => s
  match s with
  | [] => some []
  | '\n' :: rest => some rest
  | '\r' :: '\n' :: rest => some rest
  | _ => none

/-- The text after its blanks, comments and line ends, as they may stand between the items of a list.
A comment runs up to the end of its line. -/
def skipLines (comment : Bool) : List Char → Option (List Char)
  | [] => some []
  | c :: rest =>
      if c = '\n' then skipLines false rest
      else if c = '\r' then if rest.head? = some '\n' then skipLines false rest else none
      else if comment then if Form.plain c then skipLines true rest else none
      else if isBlank c then skipLines false rest
      else if c = '#' then skipLines true rest
      else some (c :: rest)
termination_by structural text => text

/-! ## Keys -/

/-- Whether a character may stand in a key without quotes. -/
def isBare (c : Char) : Bool := c.isAlphanum || c = '-' || c = '_'

/-- A part of a key and what follows it. -/
def keyPart (s : List Char) : Option (String × List Char) :=
  match s.head? with
  | some c =>
      if c = '"' ∨ c = '\'' then shortText? s
      else if isBare c then some (String.ofList (s.takeWhile isBare), s.dropWhile isBare)
      else none
  | none => none

/-- At most so many parts of a key, with dots between them, and what follows the key. -/
def keyParts : Nat → List Char → Option (Key × List Char)
  | 0, _ => none
  | most + 1, s => do
      let (part, s) ← keyPart (skipBlanks s)
      match skipBlanks s with
      | '.' :: rest =>
          let (key, rest) ← keyParts most rest
          some ({ key with path := part :: key.path }, rest)
      | rest => some (⟨[], part⟩, rest)

/-- A key, with the blanks around it, and what follows. -/
def key (s : List Char) : Option (Key × List Char) := keyParts (nestingLimit - 1) s

/-! ## Values -/

/-- The items of a list up to the closing bracket, and what follows it. -/
def listItems (read : List Char → Option (Toml × List Char)) :
    Nat → List Char → Option (List Toml × List Char)
  | 0, _ => none
  | fuel + 1, s => do
      match ← skipLines false s with
      | ']' :: rest => some ([], rest)
      | s =>
          let (first, s) ← read s
          match ← skipLines false s with
          | ',' :: rest =>
              let (more, rest) ← listItems read fuel rest
              some (first :: more, rest)
          | ']' :: rest => some ([first], rest)
          | _ => none

/-- A key and its value with the blanks around them, and what follows. -/
def keyValue (read : List Char → Option (Toml × List Char)) (s : List Char) :
    Option ((Key × Toml) × List Char) := do
  let (key, s) ← key s
  let s ← expect '=' s
  let (value, s) ← read (skipBlanks s)
  some ((key, value), skipBlanks s)

/-- The members of a table up to the closing brace, put to those that are there, and what follows. -/
def bracedMembers (read : List Char → Option (Toml × List Char)) :
    Nat → Members → List Char → Option (Members × List Char)
  | 0, _, _ => none
  | fuel + 1, members, s => do
      let ((key, value), s) ← keyValue read s
      let members ← assign key value members
      match s with
      | ',' :: rest => bracedMembers read fuel members rest
      | '\x7d' :: rest => some (members, rest)
      | _ => none

/-- A table in braces after the opening one, and what follows it. -/
def bracedTable (read : List Char → Option (Toml × List Char)) (s : List Char) :
    Option (Members × List Char) :=
  match skipBlanks s with
  | '\x7d' :: rest => some ([], rest)
  | s => bracedMembers read s.length [] s

/-- A value that holds no others, and what follows it. -/
def scalar (s : List Char) : Option (Toml × List Char) :=
  match s with
  | 't' :: 'r' :: 'u' :: 'e' :: rest => some (.truth true, rest)
  | 'f' :: 'a' :: 'l' :: 's' :: 'e' :: rest => some (.truth false, rest)
  | s =>
      if s.head? = some '"' ∨ s.head? = some '\'' then
        (quotedText? s).map fun read => (.text read.1, read.2)
      else if startsMoment s then (moment? s).map fun rest => (.moment, rest)
      else (number? s).map fun rest => (.number, rest)

/-- A value with values at most so many levels inside it, and what follows it. -/
def value : Nat → List Char → Option (Toml × List Char)
  | levels + 1, '[' :: rest =>
      (listItems (fun s => value levels s) (rest.length + 1) rest).map
        fun read => (.list read.1, read.2)
  | levels + 1, '\x7b' :: rest =>
      (bracedTable (fun s => value levels s) rest).map fun read => (.braced read.1, read.2)
  | _, s => scalar s

/-! ## Statements -/

/-- A statement and the line end after it, and what follows. -/
def statement (s : List Char) : Option (Statement × List Char) :=
  match s with
  | '[' :: '[' :: rest => do
      let (key, s) ← key rest
      let s ← expect ']' s >>= expect ']' >>= lineEnd?
      some (.appendTable key, s)
  | '[' :: rest => do
      let (key, s) ← key rest
      let s ← expect ']' s >>= lineEnd?
      some (.openTable key, s)
  | s => do
      let ((key, value), s) ← keyValue (value (nestingLimit - 1)) s
      let s ← lineEnd? s
      some (.assign key value, s)

/-- The statements of a text. -/
def statements : Nat → List Char → Option (List Statement)
  | 0, _ => none
  | fuel + 1, s =>
      match skipBlanks s with
      | [] => some []
      | c :: rest =>
          if c = '#' ∨ c = '\n' ∨ c = '\r' then do
            let s ← lineEnd? (c :: rest)
            statements fuel s
          else do
            let (first, s) ← statement (c :: rest)
            let more ← statements fuel s
            some (first :: more)

/-- The characters of a text without a byte order mark in front. -/
def withoutMark (text : String) : List Char :=
  match text.toList with
  | '\uFEFF' :: rest => rest
  | s => s

/-- The table that a document spells, if it is TOML. -/
def parse? (text : String) : Option Toml :=
  let s := withoutMark text
  statements (s.length + 1) s >>= ofStatements?

/-! ## Tests -/

/-- A trailing comma is fine in a list and not in a table. -/
example :
    (value 1 ['[', '1', ',', ']']).isSome = true ∧
      (value 1 ['\x7b', 'a', '=', '1', ',', '\x7d']).isNone = true := by
  decide

/-- Levels are counted. -/
example : (value 1 ['[', '[', ']', ']']).isNone = true ∧ (value 2 ['[', '[', ']', ']']).isSome = true := by
  decide

end BuildMatrix.Toml
