/-!
# Compiler families

A compiler belongs to a family.  What the library does with a compiler depends
only on the *capabilities* of its family: how its command line is spelled, which
of its flags can be trusted, and which kinds of build variants make sense.  An
unknown compiler is taken for a GNU-style driver of which nothing else is
assumed.
-/

namespace BuildMatrix

/-- The known compiler families. -/
inductive Family where
  /-- Microsoft Visual C++. -/
  | msvc
  /-- The GNU Compiler Collection. -/
  | gcc
  | clang
  | tinyCc
  | cproc
  | chibicc
  | eightCc
  | cparser
  /-- Any other compiler. -/
  | unknown
  deriving DecidableEq, Inhabited

def Family.name : Family → String
  | .msvc => "MSVC"
  | .gcc => "GCC"
  | .clang => "Clang"
  | .tinyCc => "TinyCC"
  | .cproc => "cproc"
  | .chibicc => "chibicc"
  | .eightCc => "8cc"
  | .cparser => "cparser"
  | .unknown => "unknown"

def Family.all : List Family :=
  [.msvc, .gcc, .clang, .tinyCc, .cproc, .chibicc, .eightCc, .cparser, .unknown]

/-- How a compiler's command line is spelled. -/
inductive Style where
  /-- As in `-Wall -c foo.c -o foo.o`. -/
  | gnu
  /-- As in `/W4 /c foo.c /Fofoo.obj`. -/
  | msvc
  deriving DecidableEq

def Style.name : Style → String
  | .gnu => "Gnu"
  | .msvc => "Msvc"

/-- A run-time library for C++. -/
inductive CxxRuntime where
  /-- The library libc++. -/
  | libcxx
  /-- The library libstdc++. -/
  | libstdcxx
  deriving DecidableEq

/-- The name by which the linker knows a run-time library. -/
def CxxRuntime.name : CxxRuntime → String
  | .libcxx => "c++"
  | .libstdcxx => "stdc++"

/-- How it is found out whether a compiler does C++. -/
inductive CxxSupport where
  /-- It always does. -/
  | always
  /-- It is not asked. -/
  | never
  /-- It is asked with one run-time library and then with the other. -/
  | probe (first second : CxxRuntime)
  deriving DecidableEq

/-- What is known of a compiler family. -/
structure Capabilities where
  /-- How the command line is spelled. -/
  style : Style
  /-- The end of an object file's name. -/
  objectExtension : String
  /-- The end of an executable's name. -/
  exeExtension : String
  /-- Whether warnings are made errors. -/
  warningsAsErrors : Bool
  /-- Whether `-Og` is wanted for debug builds. -/
  prefersOg : Bool
  /-- Whether `-fmax-errors=1` is used without asking. -/
  maxErrorsFlag : Bool
  /-- How it is found out whether the compiler does C++. -/
  cxx : CxxSupport
  /-- Whether the GNU-style kinds of variants apply. -/
  gnuVariants : Bool
  /-- Whether the kinds of variants of Visual C++ apply. -/
  msvcVariants : Bool
  /-- Whether unit tests register themselves when the program starts. -/
  autoRegistration : Bool
  deriving DecidableEq

/-- How a family's command line is spelled. -/
def Family.style : Family → Style
  | .msvc => .msvc
  | _ => .gnu

/-- How it is found out whether a family does C++.  TinyCC ignores a request for C++ without a word,
so it is not asked. -/
def Family.cxxSupport : Family → CxxSupport
  | .msvc => .always
  | .tinyCc => .never
  | .clang => .probe .libcxx .libstdcxx
  | _ => .probe .libstdcxx .libcxx

/-- What is known of a family.  Of the flags that are withheld: cparser warns of too much generated
code for warnings to be errors, Clang's `-Og` gets in the way of debugging, and GCC's
`-Wfatal-errors` is broken. -/
def Family.capabilities (f : Family) : Capabilities where
  style := f.style
  objectExtension := match f.style with | .gnu => ".o" | .msvc => ".obj"
  exeExtension := match f.style with | .gnu => "" | .msvc => ".exe"
  warningsAsErrors := f ≠ .cparser
  prefersOg := f = .gcc
  maxErrorsFlag := f = .gcc
  cxx := f.cxxSupport
  gnuVariants := f ∈ [.gcc, .clang, .chibicc, .eightCc, .cparser]
  msvcVariants := f = .msvc
  autoRegistration := f ∈ [.gcc, .clang, .msvc]

end BuildMatrix
