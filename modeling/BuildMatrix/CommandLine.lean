import BuildMatrix.CommandLine.Grammar
import BuildMatrix.Path

/-!
# What a command line asks for

A command line names a subcommand and says how to carry it out.  `Invocation.read`
turns its words into an invocation or stops.

Two options have a variable of the process environment behind them, which counts
where the option is not given.  The project directory may be given before the
subcommand, after it, or both; the later place counts.  It is looked for in both
places, so its variable is at fault if it is empty and one of the places leaves
it to the variable.
-/

namespace BuildMatrix.CommandLine

/-! ## Subcommands -/

inductive Shell where
  | bash
  | elvish
  | fish
  | powershell
  | zsh
  deriving DecidableEq

namespace Shell

def all : List Shell := [.bash, .elvish, .fish, .powershell, .zsh]

def name : Shell → String
  | .bash => "bash"
  | .elvish => "elvish"
  | .fish => "fish"
  | .powershell => "powershell"
  | .zsh => "zsh"

def ofName? (name : String) : Option Shell := all.find? (·.name = name)

end Shell

inductive Subcommand where
  /-- Probe the compiler and write the build graph. -/
  | configure
  /-- Check whether the compiler accepts some flags together. -/
  | probe
  | variants
  | toolchain
  /-- Write a completion script for a shell. -/
  | completions
  deriving DecidableEq

namespace Subcommand

def all : List Subcommand := [.configure, .probe, .variants, .toolchain, .completions]

def name : Subcommand → String
  | .configure => "configure"
  | .probe => "probe"
  | .variants => "variants"
  | .toolchain => "toolchain"
  | .completions => "completions"

def ofName? (name : String) : Option Subcommand := all.find? (·.name = name)

end Subcommand

/-! ## Grammars -/

/-- The switch for more messages. -/
def verboseSwitch : Switch := ⟨"verbose", some 'v', .noted⟩

def helpSwitch : Switch := ⟨"help", some 'h', .stops .help⟩

def versionSwitch : Switch := ⟨"version", some 'V', .stops .version⟩

def noCacheSwitch : Switch := ⟨"no-cache", none, .noted⟩

def projectDirOption : Valued := ⟨"project-dir", false⟩

def ccOption : Valued := ⟨"cc", true⟩

def buildDirOption : Valued := ⟨"build-dir", false⟩

/-- What stands before the words of a subcommand. -/
def outerGrammar : Grammar :=
  ⟨[verboseSwitch, helpSwitch, versionSwitch], [projectDirOption], .subcommand⟩

/-- The words of a subcommand. -/
def Subcommand.grammar (c : Subcommand) : Grammar :=
  let switches := [verboseSwitch, helpSwitch]
  match c with
  | .configure =>
      ⟨noCacheSwitch :: switches, [projectDirOption, ccOption, buildDirOption], .none⟩
  | .probe => ⟨switches, [projectDirOption, ccOption, buildDirOption], .flags⟩
  | .variants => ⟨switches, [projectDirOption, ccOption, buildDirOption], .none⟩
  | .toolchain => ⟨switches, [projectDirOption, ccOption], .none⟩
  | .completions => ⟨switches, [projectDirOption], .oneOf (Shell.all.map Shell.name)⟩

/-! ## Invocations -/

/-- The variable behind the project directory. -/
def projectDirVariable : String := "KILN_PROJECT_DIR"

/-- The variable behind the build directory. -/
def buildDirVariable : String := "KILN_BUILD_DIR"

/-- What a subcommand is asked to do. -/
inductive Request where
  | configure (cc : Option String) (buildDir : Option Path) (noCache : Bool)
  | probe (flags : List String) (cc : Option String) (buildDir : Option Path)
  | variants (cc : Option String) (buildDir : Option Path)
  | toolchain (cc : Option String)
  | completions (shell : Shell)
  deriving DecidableEq

/-- A request for a project. -/
structure Invocation where
  projectDir : Path
  /-- Whether more messages are asked for. -/
  verbose : Bool
  request : Request
  deriving DecidableEq

/-- The value of an option, or of the variable behind it where the option is not given.  The variable
may not be empty. -/
def orVariable (given : Option String) (fallback : Option String) : Except Stop (Option String) :=
  match given, fallback with
  | some value, _ => .ok (some value)
  | none, some "" => .error .misuse
  | none, fallback => .ok fallback

/-- What a subcommand is asked to do by what its words give. -/
def Subcommand.request (c : Subcommand) (lookup : String → Option String) (given : Given) :
    Except Stop Request := do
  let cc := given.value? ccOption.name
  match c with
  | .configure =>
      let dir ← orVariable (given.value? buildDirOption.name) (lookup buildDirVariable)
      return .configure cc (dir.map Path.mk) (given.has noCacheSwitch.name)
  | .probe =>
      let dir ← orVariable (given.value? buildDirOption.name) (lookup buildDirVariable)
      return .probe given.arguments cc (dir.map Path.mk)
  | .variants =>
      let dir ← orVariable (given.value? buildDirOption.name) (lookup buildDirVariable)
      return .variants cc (dir.map Path.mk)
  | .toolchain => return .toolchain cc
  | .completions =>
      match given.arguments.head? >>= Shell.ofName? with
      | some shell => return .completions shell
      | none => throw .misuse

/-- Whether help can be asked for by a word after `help`. -/
def isHelpTopic (word : String) : Bool :=
  word = helpSwitch.name || (Subcommand.ofName? word).isSome

/-- What words ask for, with the variables that `lookup` gives. -/
def Invocation.read (lookup : String → Option String) (words : List String) :
    Except Stop Invocation := do
  let outer ← outerGrammar.read words
  match outer.arguments with
  | [] => throw .misuse
  | name :: words =>
      match Subcommand.ofName? name with
      | some subcommand =>
          let inner ← subcommand.grammar.read words
          let request ← subcommand.request lookup inner
          let outer ← outer.settled
          let innerDir := inner.value? projectDirOption.name
          let outerDir := outer.value? projectDirOption.name
          let _ ← orVariable innerDir (lookup projectDirVariable)
          let _ ← orVariable outerDir (lookup projectDirVariable)
          let dir := (innerDir <|> outerDir <|> lookup projectDirVariable).getD "."
          let verbose := outer.has verboseSwitch.name || inner.has verboseSwitch.name
          return ⟨⟨dir⟩, verbose, request⟩
      | none =>
          if name = helpSwitch.name ∧ words.length ≤ 1 ∧ words.all isHelpTopic then throw .help
          else throw .misuse

/-! ## Tests -/

/-- The later of two places counts. -/
example :
    (Invocation.read (fun _ => none)
      ["--project-dir", "a", "toolchain", "--project-dir=b"]).toOption =
        some ⟨⟨"b"⟩, false, .toolchain none⟩ := by
  decide +kernel

/-- An empty variable is a fault only where it counts. -/
example :
    (Invocation.read (fun _ => some "") ["--project-dir=a", "toolchain"]).toOption = none ∧
      (Invocation.read (fun _ => some "")
        ["--project-dir=a", "toolchain", "--project-dir=b"]).toOption =
          some ⟨⟨"b"⟩, false, .toolchain none⟩ := by
  decide +kernel

/-- Why words are no request. -/
private def stop? (words : List String) : Option Stop :=
  match Invocation.read (fun _ => none) words with
  | .ok _ => none
  | .error why => some why

/-- A shell is checked before the help that is asked for after it. -/
example : stop? ["completions", "tcsh", "--help"] = some .misuse ∧
    stop? ["completions", "zsh", "--help"] = some .help := by
  decide +kernel

/-- The words of a subcommand are read before the value ahead of it is checked. -/
example : stop? ["--project-dir", "", "toolchain", "--help"] = some .help ∧
    stop? ["--project-dir", "", "toolchain"] = some .misuse := by
  decide +kernel

end BuildMatrix.CommandLine
