import SmaliBuild.Input
import SmaliBuild.Manifest
import SmaliBuild.Toolchain
/-!
# Compiling an input

A source file is compiled by itself and its class file is put next to it.  A source directory is
compiled through a fresh manifest into a directory of its own.  The compiler's word alone decides:
its log passes or fails the compile.
-/
namespace SmaliBuild

structure Compiled where
  path : Path
  log : CompilerLog
  manifest : Option Manifest
deriving DecidableEq, Repr

namespace Compiled

/-- The log of a compile of `t` if it passes. -/
def judge (t : Input) (log : CompilerLog) : Host.Action (Except Failure CompilerLog) := do
  match log.verdict with
  | .failed => return .error (.compileFailed t.displayName log)
  | .passed =>
    unless log.isBlank do Host.log .debug s!"Compiler output:\n{String.ofList log.text}"
    return .ok log

/-- The classes at `path`, if the compiler ran and its log passes. -/
def accept (t : Input) (path : Path) (manifest : Option Manifest) :
    Except Failure CompilerLog → Host.Action (Except Failure Compiled)
  | .error e => return .error e
  | .ok log => do
    match ← judge t log with
    | .error e => return .error e
    | .ok log => return .ok ⟨path, log, manifest⟩

def ofFile (tools : Toolchain) (file : Path) : Host.Action (Except Failure Compiled) := do
  accept (.sourceFile file) file.compiledFile none (← tools.runCompiler ⟨.file file, none⟩)

/-- The classes of every file below a source directory. -/
def ofDirectory (tools : Toolchain) (d : Path) (w : Workspace) :
    Host.Action (Except Failure Compiled) := do
  match ← Manifest.build d w.manifest with
  | .error e => return .error e
  | .ok m =>
    let answer ← tools.runCompiler ⟨.manifest m.path, some d.compiledDirectory⟩
    accept (.sourceDirectory d) d.compiledDirectory (some m) answer

def ofInput (tools : Toolchain) (t : Input) (w : Workspace) :
    Host.Action (Except Failure Compiled) :=
  match t with
  | .sourceFile file => ofFile tools file
  | .sourceDirectory d => ofDirectory tools d w

end Compiled
end SmaliBuild
