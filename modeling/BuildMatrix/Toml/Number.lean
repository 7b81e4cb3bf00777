import BuildMatrix.Text.Hex

/-!
# Numbers of TOML

What a number looks like and which numbers there are.  A reader returns what
follows the number, since its value is not needed.

* Whole numbers lie between -2⁶³ and 2⁶³ - 1.  They are decimal with an optional
  sign and no idle zero in front, or hexadecimal, octal or binary without a sign.
* Other numbers have a fraction, an exponent or both.  One that is too large for a
  double-precision number is refused, but only on the positive side.
* `inf` and `nan` are numbers, with an optional sign.

A single underscore may stand between two digits.

A number never ends the text of a document for good, so a digit too many is found
by whoever reads on: of `01` the number is `0`, and nothing may follow it on the
line.
-/

namespace BuildMatrix.Toml

open Text (digitsValue? hexValue?)

/-! ## Digits -/

/-- Whether a character is a digit in a base up to sixteen. -/
def isDigit (base : Nat) (c : Char) : Bool :=
  match hexValue? c with
  | some n => n < base
  | none => false

/-- The digits up to the end of a number, without underscores, and what follows them. -/
def moreDigits (base : Nat) : List Char → Option (List Char × List Char)
  | [] => some ([], [])
  | c :: rest =>
      if isDigit base c then (moreDigits base rest).map fun read => (c :: read.1, read.2)
      else if c = '_' then
        match rest with
        | d :: rest =>
            if isDigit base d then (moreDigits base rest).map fun read => (d :: read.1, read.2)
            else none
        | [] => none
      else some ([], c :: rest)
termination_by structural text => text

/-- One or more digits and what follows them. -/
def digits (base : Nat) : List Char → Option (List Char × List Char)
  | c :: rest =>
      if isDigit base c then (moreDigits base rest).map fun read => (c :: read.1, read.2) else none
  | [] => none

/-! ## Ranges -/

/-- The least number that is too large for a whole number. -/
def wholeLimit : Nat := Nat.pow 2 63

/-- The least number that rounds to a double-precision infinity: halfway between the greatest finite
double and the next power of two. -/
def doubleLimit : Nat := Nat.pow 2 1024 - Nat.pow 2 970

/-- The number of digits of `doubleLimit`. -/
def doubleWidth : Nat := 309

/-- Whether `n · 10 ^ e` is below `doubleLimit`.  Only for numbers with as many digits as the limit
the powers are worked out. -/
def isDouble (n : Nat) (e : Int) : Bool :=
  let width : Int := (Nat.toDigits 10 n).length + e
  if n = 0 ∨ width < doubleWidth then true
  else if width > doubleWidth then false
  else if 0 ≤ e then n * Nat.pow 10 e.toNat < doubleLimit
  else n < doubleLimit * Nat.pow 10 (-e).toNat

/-! ## Numbers -/

/-- What follows a whole number in a base, after the mark of the base. -/
def based (base : Nat) (s : List Char) : Option (List Char) := do
  let (ds, s) ← digits base s
  let n ← digitsValue? base ds
  if n < wholeLimit then some s else none

/-- Whether a number is negative, and what follows the sign. -/
def sign : List Char → Bool × List Char
  | '+' :: rest => (false, rest)
  | '-' :: rest => (true, rest)
  | s => (false, s)

/-- The digits of the whole part of a number, with no idle zero, and what follows them. -/
def wholePart : List Char → Option (List Char × List Char)
  | '0' :: rest => some (['0'], rest)
  | s => digits 10 s

/-- The digits of a fraction, if there is one, and what follows it. -/
def fraction : List Char → Option (Option (List Char) × List Char)
  | '.' :: rest => (digits 10 rest).map fun read => (some read.1, read.2)
  | s => some (none, s)

/-- An exponent, if there is one, and what follows it. -/
def exponent : List Char → Option (Option Int × List Char)
  | c :: rest =>
      if c = 'e' ∨ c = 'E' then do
        let (negative, rest) := sign rest
        let (ds, rest) ← digits 10 rest
        let n ← digitsValue? 10 ds
        some (some (if negative then -(n : Int) else n), rest)
      else some (none, c :: rest)
  | [] => some (none, [])

/-- Whether there is a number with these digits, `places` of them after the point, and this power of
ten.  Without point and power it is a whole number. -/
def fits (negative : Bool) (n : Nat) (places : Option Nat) (power : Option Int) : Bool :=
  match places, power with
  | none, none => n < wholeLimit || (negative && n = wholeLimit)
  | places, power => negative || isDouble n (power.getD 0 - places.getD 0)

/-- What follows a decimal number. -/
def decimal (s : List Char) : Option (List Char) :=
  let (negative, s) := sign s
  match s with
  | 'i' :: 'n' :: 'f' :: rest => some rest
  | 'n' :: 'a' :: 'n' :: rest => some rest
  | s => do
      let (whole, s) ← wholePart s
      let (part, s) ← fraction s
      let (power, s) ← exponent s
      let n ← digitsValue? 10 (whole ++ part.getD [])
      if fits negative n (part.map List.length) power then some s else none

/-- What follows a number. -/
def number? : List Char → Option (List Char)
  | '0' :: 'x' :: rest => based 16 rest
  | '0' :: 'o' :: rest => based 8 rest
  | '0' :: 'b' :: rest => based 2 rest
  | s => decimal s

/-! ## Tests -/

example : number? ['1', '_', '0', '0', ' '] = some [' '] := by decide
example : number? ['1', '_', '_', '0'] = none := by decide
example : number? ['-', '.', '5'] = none := by decide
example : number? ['1', '.', '5', 'e', '-', '0', '2'] = some [] := by decide
example : number? ['+', 'i', 'n', 'f'] = some [] := by decide
example : number? ['0', 'x', '_', 'a'] = none := by decide

/-- The greatest whole number and the one after it. -/
example :
    number? "9223372036854775807".toList = some [] ∧ number? "9223372036854775808".toList = none ∧
      number? "-9223372036854775808".toList = some [] := by
  decide +kernel

/-- A number beyond the doubles is refused on the positive side. -/
example : number? "1e309".toList = none ∧ number? "-1e309".toList = some [] := by decide +kernel

end BuildMatrix.Toml
