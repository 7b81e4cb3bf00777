/-!
# Parts of texts

Searching, cutting and replacing in texts.  Everything is said of the list of
characters of a text, where the library's relations live: `beginsWith`,
`endsWith` and `occursIn` decide `<+:`, `<:+` and `<:+:`.

`lines` cuts at line feeds only and drops one carriage return before each.  A
text that ends in a line feed has no further line after it, and a last line
without a line feed keeps its carriage return.
-/

namespace BuildMatrix.Text

/-! ## Searching -/

def beginsWith (part text : String) : Bool := part.toList.isPrefixOf text.toList

def endsWith (part text : String) : Bool := part.toList.isSuffixOf text.toList

/-- Whether a part occurs somewhere in a list. -/
def occurs {α : Type} [DecidableEq α] (part : List α) : List α → Bool
  | [] => part.isEmpty
  | a :: rest => part.isPrefixOf (a :: rest) || occurs part rest
termination_by structural text => text

def occursIn (part text : String) : Bool := occurs part.toList text.toList

@[simp] theorem beginsWith_iff {part text : String} :
    beginsWith part text = true ↔ part.toList <+: text.toList := by
  simp [beginsWith]

@[simp] theorem endsWith_iff {part text : String} :
    endsWith part text = true ↔ part.toList <:+ text.toList := by
  simp [endsWith]

@[simp] theorem occurs_iff {α : Type} [DecidableEq α] {part text : List α} :
    occurs part text = true ↔ part <:+: text := by
  induction text with
  | nil => simp [occurs]
  | cons a rest ih => simp [occurs, ih, List.infix_cons_iff]

@[simp] theorem occursIn_iff {part text : String} :
    occursIn part text = true ↔ part.toList <:+: text.toList := occurs_iff

/-! ## Cutting and joining -/

/-- The pieces of a text between the occurrences of a character. -/
def pieces (c : Char) (text : String) : List String :=
  (text.toList.splitOn c).map String.ofList

/-- Words side by side, one space between neighbours. -/
def spaced (words : List String) : String := " ".intercalate words

/-- What precedes the first occurrence of a character; the whole text if there is none. -/
def before (c : Char) (text : String) : String :=
  String.ofList (text.toList.takeWhile (· != c))

/-! ## Replacing -/

/-- Put one character in the place of another. -/
def swap (old new : Char) (text : String) : String :=
  text.map fun c => if c = old then new else c

/-- The text without the given character at its end. -/
def trimEnd (c : Char) (text : String) : String :=
  String.ofList (text.toList.reverse.dropWhile (· == c)).reverse

/-! ## Lines -/

/-- A line without the carriage return at its end, if it has one. -/
def dropReturn (line : List Char) : List Char :=
  if line.getLast? = some '\r' then line.dropLast else line

/-- The lines among the pieces between line feeds: every piece but the last ended in a line feed,
and the last is a line only if it holds something. -/
def linesOfPieces (cut : List (List Char)) : List (List Char) :=
  cut.dropLast.map dropReturn ++ (cut.getLast?.toList.filter fun last => !last.isEmpty)

/-- The lines of a text, without their ends. -/
def lines (text : String) : List String :=
  (linesOfPieces (text.toList.splitOn '\n')).map String.ofList

/-! ## Tests -/

example : lines "a\r\n\nb\r" = ["a", "", "b\r"] := by decide

example : lines "a\n" = ["a"] ∧ lines "" = [] := by decide

example : pieces '/' "a//b" = ["a", "", "b"] ∧ pieces '/' "" = [""] := by decide

example : trimEnd '/' "b//" = "b" ∧ trimEnd '/' "/" = "" := by decide

end BuildMatrix.Text
