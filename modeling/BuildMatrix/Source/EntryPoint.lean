import BuildMatrix.Text.Blank
import BuildMatrix.Text.Word

/-!
# Entry points without parameters

A C program may declare its main function to take no arguments, as in
`main(void)`.  Blanks may stand around the parentheses and the word between
them, and the name must not be the end of a longer word.

The text is searched at every position.  The search remembers whether the
character before was part of a word, so a failed start never hides a later one.
-/

namespace BuildMatrix.EntryPoint

open Text

/-- What follows the blanks at the start of a text. -/
def skipBlanks (s : List Char) : List Char := s.dropWhile isBlank

/-- What follows a part at the start of a text. -/
def after? (part : List Char) (s : List Char) : Option (List Char) :=
  if part.isPrefixOf s then some (s.drop part.length) else none

/-- Whether a text starts with a main function that takes no arguments. -/
def startsHere (s : List Char) : Bool :=
  (do
    let s ← after? ['m', 'a', 'i', 'n'] s
    let s ← after? ['('] (skipBlanks s)
    let s ← after? ['v', 'o', 'i', 'd'] (skipBlanks s)
    after? [')'] (skipBlanks s)).isSome

/-- Whether a main function that takes no arguments occurs, given whether the character before is
part of a word. -/
def occursAfter (inWord : Bool) : List Char → Bool
  | [] => false
  | c :: rest => (!inWord && startsHere (c :: rest)) || occursAfter (isWord c) rest
termination_by structural text => text

/-- Whether a main function that takes no arguments occurs in a text. -/
def occurs (text : String) : Bool := occursAfter false text.toList

example : occurs "int main ( void )" ∧ occurs "x main(int) main(\nvoid)" := by decide +kernel

example : occurs "domain(void)" = false ∧ occurs "main(voids)" = false := by decide +kernel

end BuildMatrix.EntryPoint
