import BuildMatrix.Text.Hex

/-!
# Quoted texts of TOML

A text is quoted in one of four forms: with double quotes, in which a backslash
starts an escape, or with single quotes, in which it does not; and short, on one
line, or long, with three quotes on either side and lines of its own.

Reading takes two steps.  `Form.body` finds the end: the first quote that is not
escaped, or the first three of them in a long text.  Up to two quotes more before
the closing three belong to the text.  `Form.denoted` then gives the body its
meaning.

* A tab, a printable character or any character above U+007F stands for itself.
* In a long text a line may end, by a line feed or a carriage return and a line
  feed; either way it stands for a line feed.
* An escape stands for one character, which may not be a surrogate.
* A backslash at the end of a line of a long text stands for nothing, with all
  blanks and line ends that follow it.

A line end right after the opening quotes of a long text is dropped.
-/

namespace BuildMatrix.Toml

open Text (digitsValue? hexValue?)

/-- How a text is quoted. -/
structure Form where
  quote : Char
  /-- Whether there are three of them on either side. -/
  long : Bool
  deriving DecidableEq

namespace Form

/-- Whether a backslash starts an escape. -/
def escapes (f : Form) : Bool := f.quote = '"'

/-- The number of quotes on either side. -/
def width (f : Form) : Nat := if f.long then 3 else 1

/-- The number of quotes right before the closing ones that belong to the text, if `run` quotes stand
in a row. -/
def spare (f : Form) (run : Nat) : Nat := if f.long then min (run - f.width) 2 else 0

/-! ## Finding the end -/

/-- The body of a quoted text after its opening quotes, and what follows the closing ones. -/
def body (f : Form) : List Char → Option (List Char × List Char)
  | [] => none
  | c :: rest =>
      let run := ((c :: rest).takeWhile (· = f.quote)).length
      if f.width ≤ run then
        some (List.replicate (f.spare run) f.quote, (c :: rest).drop (f.spare run + f.width))
      else if f.escapes ∧ c = '\\' then
        match rest with
        | d :: rest => (body f rest).map fun read => (c :: d :: read.1, read.2)
        | [] => none
      else (body f rest).map fun read => (c :: read.1, read.2)
termination_by structural text => text

/-! ## Meaning -/

/-- The character that a one-letter escape stands for. -/
def escaped? (c : Char) : Option Char :=
  if c = '"' ∨ c = '\\' then some c
  else if c = 'b' then some '\x08'
  else if c = 't' then some '\t'
  else if c = 'n' then some '\n'
  else if c = 'f' then some '\x0c'
  else if c = 'r' then some '\r'
  else none

/-- The character with the number that hexadecimal digits spell. -/
def charOf? (digits : List Char) : Option Char := do
  let n ← digitsValue? 16 digits
  if n.isValidChar then some (Char.ofNat n) else none

/-- Whether a character may stand for itself. -/
def plain (c : Char) : Bool := c = '\t' || (0x20 ≤ c.toNat && c.toNat ≠ 0x7F)

/-- Whether a blank that does not end a line. -/
def isBlank (c : Char) : Bool := c = ' ' || c = '\t'

/-- Whether a text starts with the end of a line. -/
def atLineEnd : List Char → Bool
  | '\n' :: _ => true
  | '\r' :: '\n' :: _ => true
  | _ => false

/-- What the body of a quoted text stands for.  While `skipping`, blanks and line ends stand for
nothing. -/
def denoted (f : Form) (skipping : Bool) : List Char → Option (List Char)
  | [] => some []
  | c :: rest =>
      if skipping ∧ (isBlank c ∨ atLineEnd (c :: rest)) then denoted f true rest
      else if f.long ∧ c = '\r' ∧ rest.head? = some '\n' then denoted f false rest
      else if f.long ∧ c = '\n' then (denoted f false rest).map (c :: ·)
      else if f.escapes ∧ c = '\\' then
        if f.long ∧ atLineEnd (rest.dropWhile isBlank) then denoted f true rest
        else
          match rest with
          | 'u' :: a :: b :: c :: d :: rest => do
              let e ← charOf? [a, b, c, d]
              (denoted f false rest).map (e :: ·)
          | 'U' :: a :: b :: c :: d :: a' :: b' :: c' :: d' :: rest => do
              let e ← charOf? [a, b, c, d, a', b', c', d']
              (denoted f false rest).map (e :: ·)
          | e :: rest => do
              let e ← escaped? e
              (denoted f false rest).map (e :: ·)
          | [] => none
      else if plain c then (denoted f false rest).map (c :: ·)
      else none
termination_by structural text => text

/-! ## Quoted texts -/

/-- The text after a line end, if it starts with one. -/
def dropLineEnd : List Char → List Char
  | '\n' :: rest => rest
  | '\r' :: '\n' :: rest => rest
  | s => s

/-- The text that is quoted in a form, after the opening quotes, and what follows it. -/
def read (f : Form) (s : List Char) : Option (String × List Char) := do
  let (body, rest) ← f.body (if f.long then dropLineEnd s else s)
  let text ← f.denoted false body
  some (String.ofList text, rest)

end Form

/-- A text in a short form and what follows it. -/
def shortText? : List Char → Option (String × List Char)
  | '"' :: rest => Form.read ⟨'"', false⟩ rest
  | '\'' :: rest => Form.read ⟨'\'', false⟩ rest
  | _ => none

/-- A text in any form and what follows it. -/
def quotedText? : List Char → Option (String × List Char)
  | '"' :: '"' :: '"' :: rest => Form.read ⟨'"', true⟩ rest
  | '\'' :: '\'' :: '\'' :: rest => Form.read ⟨'\'', true⟩ rest
  | s => shortText? s

/-! ## Tests -/

/-- Five quotes in a row close a long text that ends with two. -/
example : Form.body ⟨'"', true⟩ ['a', '"', '"', '"', '"', '"', 'x'] = some (['a', '"', '"'], ['x']) := by
  decide

/-- A backslash escapes the quote that ends a short text. -/
example : Form.body ⟨'"', false⟩ ['\\', '"', '"'] = some (['\\', '"'], []) := by decide

/-- A backslash at the end of a line joins the lines. -/
example :
    Form.denoted ⟨'"', true⟩ false ['a', '\r', '\n', 'b', '\\', ' ', '\n', '\n', ' ', 'c'] =
      some ['a', '\n', 'b', 'c'] := by
  decide

/-- No escape stands for a surrogate. -/
example : Form.denoted ⟨'"', false⟩ false ['\\', 'u', 'd', '8', '0', '0'] = none := by decide

end BuildMatrix.Toml
