import BuildMatrix.CommandLine
import BuildMatrix.Configure
import BuildMatrix.Settings.File

/-!
# Running a command line

`run` carries out the words of a command line in a world.  The result is a
`Report`: the exit status and the texts on the two output channels.

* A request that succeeds writes its answer to standard output.
* A request that fails writes its cause to standard error and has status 1.
* Words that are no request have status 2.

Nothing reaches standard output before the request has succeeded.  Messages on the
way go to standard error, one line each, with the characters that could steer a
terminal spelled out.  Warnings go there as well, and details if they are asked for,
but the world does not keep them, and so a report is silent about them.
-/

namespace BuildMatrix.CommandLine

open Text

/-! ## Answers -/

/-- The name of the program. -/
def programName : String := "kiln"

def versionText : String := "0.1.0"

/-- The answer to a request to configure. -/
def configuredText (o : Options) (settings : Settings) (made : Configured) : String :=
  "Configured " ++ toString made.variants.length ++ " variant(s) over " ++ toString made.sources ++
    " source file(s) with " ++ made.identity.display ++ "\n" ++
    "Run `" ++ ninjaCommand o settings ++ "` to build and test\n" ++
    "See " ++ made.helpPath.text ++ " for the available targets\n"

/-- The answer to a request to check flags. -/
def verdictText (flags : FlagSet) (supported : Bool) : String :=
  flags.text ++ (if supported then ": supported\n" else ": unsupported\n")

/-- A variant as it is listed. -/
def variantText (supportsCxx : Bool) (v : Variant) : String :=
  v.name ++ (if v.excluded then " (not in all)\n" else "\n") ++
    "  cflags:   " ++ (v.compileFlags .c).text ++ "\n" ++
    (if supportsCxx then "  cxxflags: " ++ (v.compileFlags .cxx).text ++ "\n" else "") ++
    "  ldflags:  " ++ spaced v.ldFlags ++ "\n" ++
    v.runWrapper.elim "" fun wrapper => "  run with: " ++ wrapper ++ "\n"

/-- The support for C++ in a word. -/
def cxxWord : CxxSupport → String
  | .always => "always"
  | .never => "never"
  | .probe _ _ => "probed"

def yesNo (b : Bool) : String := if b then "yes" else "no"

/-- The answer to a request to show the compiler. -/
def toolchainText (identity : Identity) (env : Environment) : String :=
  let caps := identity.family.capabilities
  "Toolchain:\n\n" ++
    "  Family: " ++ identity.family.name ++ "\n" ++
    "  CC:     " ++ identity.cc ++ "\n" ++
    "  Path:   " ++ identity.path.text ++ "\n\n" ++
    "Capabilities:\n" ++
    "  Syntax:             " ++ caps.style.name ++ "\n" ++
    "  Object suffix:      " ++ caps.objectExtension ++ "\n" ++
    "  C++ support:        " ++ cxxWord caps.cxx ++ "\n" ++
    "  Warnings as errors: " ++ yesNo caps.warningsAsErrors ++ "\n" ++
    "  Variant families:   " ++ yesNo (caps.gnuVariants || caps.msvcVariants) ++ "\n" ++
    "  Auto registration:  " ++ yesNo caps.autoRegistration ++ "\n" ++
    env.cc.elim "" fun cc => "\nEnvironment:\n  CC=" ++ cc ++ "\n"

/-- The names that may follow the name of the program. -/
def subcommandNames : String := spaced (Subcommand.all.map Subcommand.name ++ [helpSwitch.name])

/-- A script that completes the names of the subcommands. -/
def completionText : Shell → String
  | .bash => "complete -W '" ++ subcommandNames ++ "' " ++ programName ++ "\n"
  | .zsh => "#compdef " ++ programName ++ "\n_arguments '1:command:(" ++ subcommandNames ++ ")'\n"
  | .fish => "complete -c " ++ programName ++ " -f -a '" ++ subcommandNames ++ "'\n"
  | .elvish =>
      "set edit:completion:arg-completer[" ++ programName ++ "] = \x7b|@words| put " ++
        subcommandNames ++ " \x7d\n"
  | .powershell =>
      "Register-ArgumentCompleter -Native -CommandName " ++ programName ++
        " -ScriptBlock \x7b '" ++ subcommandNames ++ "' -split ' ' \x7d\n"

/-- How to call the program. -/
def usageText : String :=
  "Usage: " ++ programName ++ " [OPTIONS] <COMMAND>\n\nCommands: " ++ subcommandNames ++ "\n"

/-! ## Requests -/

/-- Carry out a request; the answer is what goes to standard output. -/
def Invocation.carryOut (i : Invocation) (runner : Runner) (env : Environment) :
    Task Failure World String := do
  let tree := (← get).tree
  let settings := Settings.ofProject tree i.projectDir
  let host := Host.detect runner tree
  let options (cc : Option String) (buildDir : Option Path) : Options :=
    { projectRoot := i.projectDir, buildDir, cc }
  match i.request with
  | .configure cc buildDir noCache =>
      let o := { options cc buildDir with noCache }
      return configuredText o settings (← configure o settings env host runner)
  | .probe flags cc buildDir =>
      let session ← Session.start (options cc buildDir) settings env runner
      return verdictText flags (← session.run runner fun prober => prober.check flags)
  | .variants cc buildDir =>
      let session ← Session.start (options cc buildDir) settings env runner
      let (baseline, variants) ← session.run runner fun prober =>
        prober.carryOut (planVariants prober.toolchain prober.exe settings env host)
      return String.join (variants.toList.map (variantText baseline.supportsCxx))
  | .toolchain cc =>
      let toolchain ← World.detect runner (cc <|> env.cc)
      return toolchainText toolchain.identity env
  | .completions shell => return completionText shell

/-! ## Reports -/

/-- What a run of the program leaves. -/
structure Report where
  status : Nat
  /-- The text on standard output. -/
  stdout : String := ""
  /-- The text on standard error, but for warnings. -/
  stderr : String := ""
  deriving DecidableEq

/-- A character of a message.  One that could steer a terminal is spelled out. -/
def messageChar (c : Char) : List Char :=
  let digits : List Char := [hexDigit (c.toNat / 16), hexDigit (c.toNat % 16)]
  if c = '\x1b' ∨ c = '\x07' ∨ c = '\x08' ∨ c = '\x0c' ∨ c = '\x7f' then ['\\', 'x'] ++ digits
  else if 0x80 ≤ c.toNat ∧ c.toNat ≤ 0x9F then ['\\', 'u', '\x7b'] ++ digits ++ ['\x7d']
  else [c]

def messageLine (message : String) : String :=
  " INFO " ++ String.ofList (message.toList.flatMap messageChar) ++ "\n"

/-- The report on a run that has told the user some messages, none of them a warning. -/
def reportOf (told : List String) : Except Failure String → Report
  | .ok answer => { status := 0, stdout := answer, stderr := String.join (told.map messageLine) }
  | .error failure =>
      { status := 1
        stderr := String.join (told.map messageLine) ++ "error: " ++ failure.report ++ "\n" }

/-- Carry out the words of a command line, with the variables that `lookup` gives. -/
def run (runner : Runner) (lookup : String → Option String) (words : List String) (w : World) :
    Report × World :=
  match Invocation.read lookup words with
  | .error .help => ({ status := 0, stdout := usageText }, w)
  | .error .version => ({ status := 0, stdout := programName ++ " " ++ versionText ++ "\n" }, w)
  | .error .misuse => ({ status := 2, stderr := usageText }, w)
  | .ok invocation =>
      let (outcome, after) :=
        (invocation.carryOut runner (Environment.ofVariables lookup)).outcome w
      (reportOf (after.told.drop w.told.length) outcome, after)

/-! ## Tests -/

example : messageChar '\x1b' = ['\\', 'x', '1', 'b'] := by decide

end BuildMatrix.CommandLine
