import BuildMatrix.Text.Hex

/-!
# JSON

JSON texts, read strictly: no comments, no trailing commas, no byte order mark,
nothing after the value but blanks.  Only what the library looks at is kept.  A
number keeps nothing, since no file of this library holds one.  An object keeps
its members in the order of the text, repeated names included.

A string literal may spell half of a surrogate pair.  Such a literal is well
formed and yet denotes no text, so a string holds an optional text.

`quote` writes a text as a string literal.  Only the quote, the backslash and the
characters below U+0020 are escaped.

The reader's recursion is bounded by the length of the text, since each step on
the way to a nested value uses up a character or leads straight to one that does.
-/

namespace BuildMatrix

/-- A JSON value. -/
inductive Json where
  | null
  | bool (value : Bool)
  | number
  /-- A string, with its text if it denotes one. -/
  | string (text : Option String)
  | array (items : List Json)
  /-- Named values, in the order of the text. -/
  | object (members : List (Option String × Json))

namespace Json

open Text (hexDigit hexValue?)

/-! ## String literals -/

/-- A character as it is written in a string literal. -/
def quoteChar (c : Char) : List Char :=
  if c = '"' then ['\\', '"']
  else if c = '\\' then ['\\', '\\']
  else if c = '\x08' then ['\\', 'b']
  else if c = '\t' then ['\\', 't']
  else if c = '\n' then ['\\', 'n']
  else if c = '\x0c' then ['\\', 'f']
  else if c = '\r' then ['\\', 'r']
  else if c.toNat < 0x20 then
    ['\\', 'u', '0', '0', hexDigit (c.toNat / 16), hexDigit (c.toNat % 16)]
  else [c]

/-- A text as a string literal. -/
def quote (text : String) : String :=
  String.ofList (['"'] ++ text.toList.flatMap quoteChar ++ ['"'])

/-- The character that a one-letter escape stands for. -/
def escaped? (c : Char) : Option Char :=
  if c = '"' ∨ c = '\\' ∨ c = '/' then some c
  else if c = 'b' then some '\x08'
  else if c = 't' then some '\t'
  else if c = 'n' then some '\n'
  else if c = 'f' then some '\x0c'
  else if c = 'r' then some '\r'
  else none

/-- The code units of a string literal after its opening quote, and what follows the closing one.  A
character that stands for itself is one unit, even where it is a large one. -/
def units : List Char → Option (List Nat × List Char)
  | [] => none
  | '"' :: rest => some ([], rest)
  | '\\' :: 'u' :: a :: b :: c :: d :: rest => do
      let a ← hexValue? a
      let b ← hexValue? b
      let c ← hexValue? c
      let d ← hexValue? d
      let (more, rest) ← units rest
      some ((((a * 16 + b) * 16 + c) * 16 + d) :: more, rest)
  | '\\' :: c :: rest => do
      let c ← escaped? c
      let (more, rest) ← units rest
      some (c.toNat :: more, rest)
  | c :: rest =>
      if c.toNat < 0x20 ∨ c = '\\' then none
      else do
        let (more, rest) ← units rest
        some (c.toNat :: more, rest)
termination_by structural text => text

/-- The characters of code units, with surrogates joined in pairs; none if one stands alone. -/
def chars? : List Nat → Option (List Char)
  | [] => some []
  | u :: rest =>
      if 0xD800 ≤ u ∧ u < 0xDC00 then
        match rest with
        | v :: rest =>
            if 0xDC00 ≤ v ∧ v < 0xE000 then
              (chars? rest).map (Char.ofNat (0x10000 + (u - 0xD800) * 0x400 + (v - 0xDC00)) :: ·)
            else none
        | [] => none
      else if 0xDC00 ≤ u ∧ u < 0xE000 then none
      else (chars? rest).map (Char.ofNat u :: ·)
termination_by structural units => units

/-- A string literal after its opening quote: the text it denotes, if any, and what follows. -/
def literal (s : List Char) : Option (Option String × List Char) :=
  (units s).map fun read => ((chars? read.1).map String.ofList, read.2)

/-! ## Blanks and numbers -/

/-- The text after its blanks. -/
def skipBlanks (s : List Char) : List Char :=
  s.dropWhile fun c => c = ' ' ∨ c = '\t' ∨ c = '\n' ∨ c = '\r'

/-- What follows one or more digits. -/
def digits (s : List Char) : Option (List Char) :=
  match s with
  | c :: rest => if c.isDigit then some (rest.dropWhile Char.isDigit) else none
  | [] => none

/-- What follows the whole part of a number: a zero, or digits that do not start with one. -/
def wholePart (s : List Char) : Option (List Char) :=
  match s with
  | '0' :: c :: rest => if c.isDigit then none else some (c :: rest)
  | s => digits s

/-- What follows the fraction of a number, if it has one. -/
def fraction (s : List Char) : Option (List Char) :=
  match s with
  | '.' :: rest => digits rest
  | s => some s

/-- What follows the exponent of a number, if it has one. -/
def exponent (s : List Char) : Option (List Char) :=
  match s with
  | c :: rest =>
      if c = 'e' ∨ c = 'E' then
        match rest with
        | '+' :: rest => digits rest
        | '-' :: rest => digits rest
        | rest => digits rest
      else some (c :: rest)
  | [] => some []

/-- What follows a number. -/
def number? (s : List Char) : Option (List Char) := do
  let s ← wholePart (match s with | '-' :: rest => rest | s => s)
  let s ← fraction s
  exponent s

/-! ## Values -/

mutual

/-- A value and what follows it. -/
def value : Nat → List Char → Option (Json × List Char)
  | 0, _ => none
  | fuel + 1, s =>
      match skipBlanks s with
      | '"' :: rest => (literal rest).map fun read => (.string read.1, read.2)
      | '[' :: rest =>
          match skipBlanks rest with
          | ']' :: rest => some (.array [], rest)
          | rest => (items fuel rest).map fun read => (.array read.1, read.2)
      | '\x7b' :: rest =>
          match skipBlanks rest with
          | '\x7d' :: rest => some (.object [], rest)
          | rest => (members fuel rest).map fun read => (.object read.1, read.2)
      | 't' :: 'r' :: 'u' :: 'e' :: rest => some (.bool true, rest)
      | 'f' :: 'a' :: 'l' :: 's' :: 'e' :: rest => some (.bool false, rest)
      | 'n' :: 'u' :: 'l' :: 'l' :: rest => some (.null, rest)
      | rest => (number? rest).map fun rest => (.number, rest)

/-- One or more values up to the closing bracket, and what follows it. -/
def items : Nat → List Char → Option (List Json × List Char)
  | 0, _ => none
  | fuel + 1, s => do
      let (first, s) ← value fuel s
      match skipBlanks s with
      | ',' :: rest =>
          let (more, rest) ← items fuel rest
          some (first :: more, rest)
      | ']' :: rest => some ([first], rest)
      | _ => none

/-- One or more named values up to the closing brace, and what follows it. -/
def members : Nat → List Char → Option (List (Option String × Json) × List Char)
  | 0, _ => none
  | fuel + 1, s => do
      let (name, s) ← match skipBlanks s with
        | '"' :: rest => literal rest
        | _ => none
      let s ← match skipBlanks s with
        | ':' :: rest => some rest
        | _ => none
      let (first, s) ← value fuel s
      match skipBlanks s with
      | ',' :: rest =>
          let (more, rest) ← members fuel rest
          some ((name, first) :: more, rest)
      | '\x7d' :: rest => some ([(name, first)], rest)
      | _ => none

end

/-- The value that a text spells, if it is JSON. -/
def parse? (text : String) : Option Json :=
  match value (2 * text.toList.length + 2) text.toList with
  | some (read, rest) => if skipBlanks rest = [] then some read else none
  | none => none

end Json

end BuildMatrix
