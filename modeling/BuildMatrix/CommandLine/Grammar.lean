/-!
# Command line words

The words of a command line are switches, options with a value, and arguments.  A
`Grammar` says which there are.  `Grammar.read` sorts the words out or stops: for
help, for the version, or because the words are not in the grammar.

A switch is spelled by its name after two dashes or by its letter after one; one
word may hold several letters.  An option is spelled by its name, and its value is
the next word or follows an equals sign.  Each is given at most once.  Two dashes
alone end the options.

Words are taken in order, so of two faults the first one counts, and help that is
asked for after a fault is not given.  A word that names a switch or an option is
never the value of the option before it.

The value of an option that is a word of its own is checked when the next switch,
option or argument is read, or when the words end.  The words of a subcommand are
read before that, so help that they ask for is given even if the value is at fault.

Two grammars do not look for options after their first argument.  A grammar of
*flags* takes all words from the first flag on as flags, and a word that looks
like an option and is none is a flag.  A grammar of a *subcommand* leaves the words
after its name to it.
-/

namespace BuildMatrix.CommandLine

/-! ## Grammars -/

/-- Why the reading of a command line stops. -/
inductive Stop where
  | help
  | version
  | misuse
  deriving DecidableEq

inductive Effect where
  | noted
  | stops (why : Stop)
  deriving DecidableEq

/-- A switch. -/
structure Switch where
  name : String
  letter : Option Char := none
  effect : Effect := .noted
  deriving DecidableEq

/-- An option with a value. -/
structure Valued where
  name : String
  /-- Whether its value may be the empty text. -/
  mayBeEmpty : Bool := false
  deriving DecidableEq

inductive Arguments where
  | none
  | oneOf (choices : List String)
  | flags
  | subcommand
  deriving DecidableEq

/-- What a command line may hold. -/
structure Grammar where
  switches : List Switch
  options : List Valued
  arguments : Arguments
  deriving DecidableEq

/-- What a command line gives. -/
structure Given where
  switches : List String := []
  /-- The options given, each with its value. -/
  values : List (String × String) := []
  arguments : List String := []
  /-- An option with its value, a word of its own that is not yet checked. -/
  unchecked : Option (Valued × String) := none
  deriving DecidableEq

/-! ## Words -/

/-- What a word looks like. -/
inductive Word where
  /-- Two dashes alone. -/
  | separator
  /-- A name after two dashes, with what follows the first equals sign. -/
  | long (name : String) (value : Option String)
  /-- Letters after one dash. -/
  | letters (letters : List Char)
  | plain
  deriving DecidableEq

/-- What a word looks like. -/
def Word.of (word : String) : Word :=
  match word.toList with
  | ['-', '-'] => .separator
  | '-' :: '-' :: rest =>
      let name := String.ofList (rest.takeWhile (· ≠ '='))
      match rest.dropWhile (· ≠ '=') with
      | _ :: value => .long name (some (String.ofList value))
      | [] => .long name none
  | '-' :: c :: rest => .letters (c :: rest)
  | _ => .plain

namespace Grammar

def named? (g : Grammar) (name : String) : Option Switch := g.switches.find? (·.name = name)

def lettered? (g : Grammar) (letter : Char) : Option Switch :=
  g.switches.find? (·.letter = some letter)

def valued? (g : Grammar) (name : String) : Option Valued := g.options.find? (·.name = name)

/-- Whether a word can only be read as switches or an option.  Where flags are taken, this is a word
that the grammar knows; elsewhere it is a word that looks like one. -/
def claims (g : Grammar) : Word → Bool
  | .separator => true
  | .long name _ => g.arguments ≠ .flags || (g.named? name).isSome || (g.valued? name).isSome
  | .letters cs => g.arguments ≠ .flags || cs.all fun c => (g.lettered? c).isSome
  | .plain => false

end Grammar

/-! ## What is given -/

namespace Given

/-- What is given with a switch more. -/
def withSwitch (given : Given) (switch : Switch) : Except Stop Given :=
  match switch.effect with
  | .stops why => .error why
  | .noted =>
      if switch.name ∈ given.switches then .error .misuse
      else .ok { given with switches := given.switches ++ [switch.name] }

/-- What is given with the switches of some letters more. -/
def withLetters (g : Grammar) (given : Given) (letters : List Char) : Except Stop Given :=
  letters.foldlM
    (fun given c =>
      match g.lettered? c with
      | some switch => given.withSwitch switch
      | none => .error .misuse)
    given

/-- What is given with an option more. -/
def withValue (given : Given) (option : Valued) (value : String) : Except Stop Given :=
  if (given.values.lookup option.name).isSome ∨ (value = "" ∧ ¬ option.mayBeEmpty) then
    .error .misuse
  else .ok { given with values := given.values ++ [(option.name, value)] }

/-- What is given once no value is left unchecked. -/
def settled (given : Given) : Except Stop Given :=
  match given.unchecked with
  | some (option, value) => { given with unchecked := none }.withValue option value
  | none => .ok given

/-- What is given with arguments more. -/
def withArguments (given : Given) (words : List String) : Given :=
  { given with arguments := given.arguments ++ words }

def has (given : Given) (name : String) : Bool := name ∈ given.switches

def value? (given : Given) (name : String) : Option String := given.values.lookup name

end Given

/-! ## Reading -/

namespace Grammar

/-- What is given when the words end, if the arguments are as they should be. -/
def finish (g : Grammar) (given : Given) : Except Stop Given :=
  let fits : Bool :=
    match g.arguments with
    | .none => given.arguments.length = 0
    | .oneOf choices => given.arguments.length = 1 ∧ ∀ word ∈ given.arguments, word ∈ choices
    | .flags => 1 ≤ given.arguments.length
    | .subcommand => 1 ≤ given.arguments.length
  if fits then .ok given else .error .misuse

/-- What is given when the words after two dashes are the last arguments.  No subcommand is among them. -/
def finishPlain (g : Grammar) (given : Given) (words : List String) : Except Stop Given :=
  if g.arguments = .subcommand then .error .misuse else g.finish (given.withArguments words)

/-- Read words, the first of them as the value of an option if one is `awaiting` it. -/
def readFrom (g : Grammar) (awaiting : Option Valued) (given : Given) :
    List String → Except Stop Given
  | [] => if awaiting.isSome then .error .misuse else do g.finish (← given.settled)
  | word :: rest =>
      match awaiting with
      | some option =>
          if g.claims (.of word) then .error .misuse
          else readFrom g none { given with unchecked := some (option, word) } rest
      | none =>
          if g.claims (.of word) then do
            let given ← given.settled
            match Word.of word with
            | .long name value =>
                match g.valued? name, g.named? name, value with
                | some option, _, some value => do
                    readFrom g none (← given.withValue option value) rest
                | some option, _, none => readFrom g (some option) given rest
                | none, some switch, none => do readFrom g none (← given.withSwitch switch) rest
                | none, _, _ => .error .misuse
            | .letters cs => do readFrom g none (← given.withLetters g cs) rest
            | _ => g.finishPlain given rest
          else
            match g.arguments with
            | .none => .error .misuse
            | .oneOf choices =>
                if given.arguments = [] ∧ word ∈ choices then do
                  readFrom g none ((← given.settled).withArguments [word]) rest
                else .error .misuse
            | .flags => do g.finish ((← given.settled).withArguments (word :: rest))
            | .subcommand => g.finish (given.withArguments (word :: rest))

/-- What the words of a command line give. -/
def read (g : Grammar) (words : List String) : Except Stop Given := g.readFrom none {} words

end Grammar

/-! ## Tests -/

section Tests

private def sample : Grammar :=
  ⟨[⟨"verbose", some 'v', .noted⟩], [⟨"cc", true⟩], .flags⟩

/-- From the first flag on every word is a flag. -/
example :
    (sample.read ["-v", "--cc", "-x", "-Wall", "--cc", "--"]).toOption =
      some ⟨["verbose"], [("cc", "-x")], ["-Wall", "--cc", "--"], none⟩ := by
  decide +kernel

/-- A word that names a switch is no value. -/
example : (sample.read ["--cc", "-v", "x"]).toOption = none := by decide +kernel

end Tests

end BuildMatrix.CommandLine
