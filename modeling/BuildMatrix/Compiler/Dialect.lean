import BuildMatrix.Compiler.Identity
import BuildMatrix.Graph
import BuildMatrix.Process

/-!
# Compiler dialects

A toolchain is a compiler together with the way its command line is spelled.
Everything here is spelling: the same request, say an include directory, in the
GNU style and in the style of Visual C++.

The commands of the rules are templates.  `$flags`, `$in` and `$out` stand for
the values that each edge of the build graph gives them; the rest is copied as it
stands.
-/

namespace BuildMatrix

open Text

/-- The compiler of a run, ready to be asked for spellings. -/
structure Toolchain where
  identity : Identity
  deriving DecidableEq

namespace Toolchain

/-- What is known of the compiler's family. -/
def capabilities (tc : Toolchain) : Capabilities := tc.identity.family.capabilities

/-- How the command line is spelled. -/
def style (tc : Toolchain) : Style := tc.capabilities.style

/-- The end of an object file's name. -/
def objectExtension (tc : Toolchain) : String := tc.capabilities.objectExtension

/-- The end of an executable's name. -/
def exeExtension (tc : Toolchain) : String := tc.capabilities.exeExtension

/-! ## Probing -/

/-- The command that compiles and links a source with strict warnings and the given flags. -/
def probeCommand (tc : Toolchain) (source exe : Path) (flags : List String) : Command :=
  match tc.style with
  | .gnu =>
      ⟨tc.identity.path,
        ["-Wall", "-Wextra", "-Wpedantic", "-Werror"] ++ flags ++ [source.text, "-o", exe.text]⟩
  | .msvc =>
      ⟨tc.identity.path,
        ["/W4", "/WX"] ++ flags ++
          [source.text, "/Fe" ++ exe.text, "/Fo" ++ source.text ++ ".obj"]⟩

/-- The flags that make the compiler write a dependency file, if it is asked for one. -/
def depfileProbe (tc : Toolchain) (depfile : Path) : Option (List String) :=
  match tc.style with
  | .gnu => some ["-MD", "-MF", depfile.text]
  | .msvc => none

/-! ## Rules -/

def compileRuleName : String := "compile"

def linkRuleName : String := "link"

/-- The rule that compiles a source.  In the GNU style a launcher may come before the compiler, and
the compiler may be told to write a dependency file. -/
def compileRule (tc : Toolchain) (launcher : Option String) (depfile : Bool) : Rule :=
  match tc.style with
  | .gnu =>
      let start := match launcher with
        | some launcher => launcher ++ " " ++ tc.identity.cc ++ " "
        | none => tc.identity.cc ++ " "
      if depfile then
        ⟨compileRuleName,
          [("command", start ++ "-MD -MF $out.d " ++ "$flags -c $in -o $out"),
           ("deps", "gcc"), ("depfile", "$out.d")]⟩
      else ⟨compileRuleName, [("command", start ++ "$flags -c $in -o $out")]⟩
  | .msvc =>
      ⟨compileRuleName,
        [("command", tc.identity.cc ++ " /showIncludes $flags /c $in /Fo$out"), ("deps", "msvc")]⟩

def linkRule (tc : Toolchain) : Rule :=
  match tc.style with
  | .gnu => ⟨linkRuleName, [("command", tc.identity.cc ++ " $in $flags -o $out")]⟩
  | .msvc =>
      ⟨linkRuleName,
        [("command", "link @$out.rsp /OUT:$out"), ("rspfile", "$out.rsp"),
         ("rspfile_content", "$flags $in")]⟩

/-! ## Flags that every compiler of a style takes -/

/-- The flags for warnings and debug information. -/
def warningFlags (tc : Toolchain) : List String :=
  match tc.style with
  | .gnu => ["-Wall", "-g"] ++ if tc.capabilities.warningsAsErrors then ["-Werror"] else []
  | .msvc => ["/W4", "/WX", "/Zi", "/FS"]

def baseLinkFlags (tc : Toolchain) : List String :=
  match tc.style with
  | .gnu => []
  | .msvc => ["/DEBUG"]

/-- The optimisation flags of debug builds. -/
def debugOptFlags (tc : Toolchain) (useOg : Bool) : List String :=
  match tc.style with
  | .gnu => [if useOg then "-Og" else "-O0"]
  | .msvc => ["/Od", "/MDd"]

/-- The optimisation flags of release builds. -/
def releaseOptFlags (tc : Toolchain) : List String :=
  match tc.style with
  | .gnu => ["-O2"]
  | .msvc => ["/O2", "/MD"]

/-- The flags that select C. -/
def cLanguageFlags (tc : Toolchain) : List String :=
  match tc.style with
  | .gnu => []
  | .msvc => ["/TC"]

/-- The flags that select C++. -/
def cxxLanguageFlags (tc : Toolchain) : List String :=
  match tc.style with
  | .gnu => ["-x", "c++", "-std=c++11", "-Wmissing-declarations"]
  | .msvc => ["/TP", "/EHsc"]

/-! ## Flags with an argument -/

/-- The flag that adds a directory to the search for headers. -/
def includeFlag (tc : Toolchain) (dir : Path) : String :=
  match tc.style with
  | .gnu => "-I" ++ dir.text
  | .msvc => "/I" ++ dir.text

/-- The flag that defines a name for the preprocessor, with or without a value. -/
def defineFlag (_tc : Toolchain) (name : String) (value : Option String) : String :=
  match value with
  | some value => "-D" ++ name ++ "=" ++ value
  | none => "-D" ++ name

/-- The flags that include a header before the source.  Visual C++ wants backslashes there. -/
def forcedIncludeFlags (tc : Toolchain) (header : String) : List String :=
  match tc.style with
  | .gnu => ["-include", header]
  | .msvc => ["/FI" ++ swap '/' '\\' header]

/-- The flags that keep the side files of a variant in its own directory, so that two variants built
at the same time do not write to the same file. -/
def variantDirFlags (tc : Toolchain) (dir : String) : List String :=
  match tc.style with
  | .gnu => []
  | .msvc => ["/Fd" ++ dir ++ "/"]

end Toolchain

end BuildMatrix
