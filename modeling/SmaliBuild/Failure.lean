import SmaliBuild.CompilerLog
import SmaliBuild.IoError
import SmaliBuild.Path.Basic
/-!
# Why a conversion is refused or given up

`Failure` lists the fatal conditions.  Entries that a manifest lacks and artifacts that could not be
deleted are not among them: those are warnings of a conversion that goes on.
-/
namespace SmaliBuild

/-- The external tools, in the order in which a conversion needs them. -/
inductive Tool where
  | compiler
  | packager
  | disassembler
deriving DecidableEq, Repr

def Tool.name : Tool → String
  | .compiler => "compiler"
  | .packager => "packager"
  | .disassembler => "disassembler"

instance : ToString Tool := ⟨Tool.name⟩

inductive Failure where
  | toolchainMissing (tool : Tool) (program : String)
  | toolInvocation (tool : Tool) (program : String) (cause : IoError)
  | manifestCreation (path : Path) (cause : IoError)
  | compileFailed (name : String) (log : CompilerLog)
  | inputNotFound (path : Path)
  | compiledInput (path : Path)
  | spacesInDirectoryPath (path : Path)
  | io (path : Path) (cause : IoError)
deriving DecidableEq, Repr

namespace Failure

def message : Failure → String
  | .toolchainMissing tool program => s!"{tool} `{program}` was not found"
  | .toolInvocation tool program _ => s!"failed to run {tool} `{program}`"
  | .manifestCreation path _ => s!"cannot recreate '{path}'"
  | .compileFailed name _ => s!"compilation of {name} failed"
  | .inputNotFound path => s!"'{path}' does not exist"
  | .compiledInput path => s!"'{path}' is already a class file"
  | .spacesInDirectoryPath path => s!"directory path '{path}' contains spaces"
  | .io path _ => s!"I/O error on '{path}'"

/-- The identifier of the condition, for those that have one. -/
def code? : Failure → Option String
  | .toolchainMissing .. => some "java2smali::toolchain_missing"
  | .toolInvocation .. => some "java2smali::tool_invocation"
  | .manifestCreation .. => some "java2smali::manifest_creation"
  | .compileFailed .. => some "java2smali::compile_failed"
  | .compiledInput .. => some "java2smali::compiled_input"
  | .inputNotFound .. | .spacesInDirectoryPath .. | .io .. => none

def help? : Failure → Option String
  | .toolchainMissing .. => some
      "install a JDK and the Android build tools, or point [toolchain] in java2smali.toml at them"
  | .manifestCreation .. => some
      "make sure nothing else occupies this path and its directory is writable"
  | .compileFailed .. => some "check the compiler output above for more info"
  | .compiledInput .. => some
      "pass the .java source instead; class files are compiler output"
  | .spacesInDirectoryPath .. => some
      ("only single files can be converted from paths that contain spaces; " ++
        "move or rename the directory")
  | .toolInvocation .. | .inputNotFound .. | .io .. => none

def cause? : Failure → Option IoError
  | .toolInvocation _ _ cause | .manifestCreation _ cause | .io _ cause => some cause
  | _ => none

/-- What the compiler printed, if the compile is what failed. -/
def compilerLog? : Failure → Option CompilerLog
  | .compileFailed _ log => some log
  | _ => none

end Failure

/-- A path that a run had to leave as it was, and why: a warning. -/
structure Setback where
  path : Path
  cause : IoError
deriving DecidableEq, Repr

end SmaliBuild
