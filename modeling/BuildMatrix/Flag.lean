import BuildMatrix.Text.Part

/-!
# Flags

A compiler lets a later flag override an earlier one, so the order of flags is
part of their meaning.  Two kinds of flag lists follow from that.

A `FlagList` composes a command line.  Every flag belongs to a *stage*, and the
composed order goes through the stages from weakest to strongest, whatever the
order in which the flags came.  Within a stage the flags keep their order.

A `FlagSet` is a list of tokens that is put to the compiler as one question.
Two sets with the same tokens in another order are different questions.
-/

namespace BuildMatrix

open Text

/-! ## Stages -/

/-- The precedence of a group of flags, weakest first. -/
inductive Stage where
  /-- Flags that every compilation of a variant shares. -/
  | common
  /-- Flags that select and tune the language. -/
  | language
  /-- Flags of the variant for all languages. -/
  | variant
  /-- Flags of a single source. -/
  | source
  /-- Flags of the debug or release configuration. -/
  | configuration
  deriving DecidableEq, Inhabited

/-- The stages, weakest first. -/
def Stage.all : List Stage := [.common, .language, .variant, .source, .configuration]

/-! ## Flag lists -/

/-- Flags by stage. -/
structure FlagList where
  common : List String := []
  language : List String := []
  variant : List String := []
  source : List String := []
  configuration : List String := []
  deriving DecidableEq, Inhabited

namespace FlagList

def empty : FlagList := {}

/-- The flags of a stage, in the order in which they were added. -/
def stage (l : FlagList) : Stage → List String
  | .common => l.common
  | .language => l.language
  | .variant => l.variant
  | .source => l.source
  | .configuration => l.configuration

/-- Add flags to a stage, after those it has. -/
def append (l : FlagList) (s : Stage) (flags : List String) : FlagList :=
  match s with
  | .common => { l with common := l.common ++ flags }
  | .language => { l with language := l.language ++ flags }
  | .variant => { l with variant := l.variant ++ flags }
  | .source => { l with source := l.source ++ flags }
  | .configuration => { l with configuration := l.configuration ++ flags }

def push (l : FlagList) (s : Stage) (flag : String) : FlagList := l.append s [flag]

/-- The composed order: stage by stage, weakest first. -/
def toList (l : FlagList) : List String := Stage.all.flatMap l.stage

def length (l : FlagList) : Nat := Stage.all.foldr (fun s n => (l.stage s).length + n) 0

def isEmpty (l : FlagList) : Bool := Stage.all.all fun s => (l.stage s).isEmpty

/-- The composed order as text, one space between neighbours. -/
def text (l : FlagList) : String := spaced l.toList

theorem stage_append (l : FlagList) (s s' : Stage) (flags : List String) :
    (l.append s flags).stage s' = if s' = s then l.stage s' ++ flags else l.stage s' := by
  cases s <;> cases s' <;> simp [append, stage]

theorem length_toList (l : FlagList) : l.toList.length = l.length := by
  simp [toList, length, Stage.all]

/-- Lists that agree stage by stage are equal. -/
theorem ext_stage {l m : FlagList} (h : ∀ s, l.stage s = m.stage s) : l = m := by
  cases l; cases m
  simp only [FlagList.mk.injEq]
  exact ⟨h .common, h .language, h .variant, h .source, h .configuration⟩

end FlagList

/-! ## Flag sets -/

/-- The tokens of one question to the compiler. -/
abbrev FlagSet := List String

namespace FlagSet

/-- The set as text, one space between neighbours. -/
def text (flags : FlagSet) : String := spaced flags

/-- A token with each bar and each backslash in it preceded by a backslash. -/
def escape : List Char → List Char
  | [] => []
  | c :: rest => if c = '|' ∨ c = '\\' then '\\' :: c :: escape rest else c :: escape rest
termination_by structural token => token

/-- The set as a single text: its tokens, escaped, with bars between them. -/
def encode (flags : FlagSet) : String :=
  String.ofList (['|'].intercalate (flags.map fun token => escape token.toList))

/-- The tokens of an encoded text, with `token` as what the current token holds so far.  A backslash
makes the next character a part of the token; one at the very end stands for itself. -/
def decodeFrom (token : List Char) : List Char → List (List Char)
  | [] => [token.reverse]
  | ['\\'] => [('\\' :: token).reverse]
  | '\\' :: c :: rest => decodeFrom (c :: token) rest
  | c :: rest =>
      if c = '|' then token.reverse :: decodeFrom [] rest else decodeFrom (c :: token) rest

/-- The set that a text encodes.  The empty text encodes the set without tokens. -/
def decode (key : String) : FlagSet :=
  if key = "" then [] else (decodeFrom [] key.toList).map String.ofList

end FlagSet

/-! ## Tests -/

example : FlagSet.encode ["-DPIPE=a|b", "C:\\dir"] = "-DPIPE=a\\|b|C:\\\\dir" := by decide

example : FlagSet.decode "-a|-b\\" = ["-a", "-b\\"] ∧ FlagSet.decode "|" = ["", ""] := by
  decide +kernel

end BuildMatrix
