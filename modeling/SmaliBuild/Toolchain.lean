import SmaliBuild.Failure
import SmaliBuild.Host
/-!
# The external tools

What a conversion asks of the compiler, the packager and the disassembler, how each request is
spelled as an argument list, and `Toolchain`, anything that answers the requests.  A tool may change
the files as it likes; what it prints and logs becomes part of the run's journal.
-/
namespace SmaliBuild

/-- The language level that sources are read at and classes are written for. -/
def languageLevel : String := "1.8"

/-- What the compiler is to compile: one file, or all files on a manifest. -/
inductive Sources where
  | file (path : Path)
  | manifest (path : Path)
deriving DecidableEq, Repr

structure CompileRequest where
  sources : Sources
  output : Option Path
deriving DecidableEq, Repr

structure PackageRequest where
  input : Path
  output : Path
  optimize : Bool
deriving DecidableEq, Repr

structure DisassembleRequest where
  bundle : Path
  output : Path
deriving DecidableEq, Repr

/-- The sources as an argument; a manifest is marked by an at sign. -/
def Sources.argument : Sources → OsString
  | .file p => p.text
  | .manifest p => .ofString "@" ++ p.text

/-- The language level, the sources, and the directory for the classes if there is one. -/
def CompileRequest.arguments (r : CompileRequest) : List OsString :=
  ["-source", languageLevel, "-target", languageLevel].map .ofString ++ [r.sources.argument] ++
    match r.output with
    | none => []
    | some d => [.ofString "-d", d.text]

/-- Lax and silent, optimized or not, then the bundle and the classes. -/
def PackageRequest.arguments (r : PackageRequest) : List OsString :=
  (["--dex", "--no-strict"] ++ (if r.optimize then [] else ["--no-optimize"]) ++
    ["--no-warning", "--output"]).map .ofString ++ [r.output.text, r.input.text]

def DisassembleRequest.arguments (r : DisassembleRequest) : List OsString :=
  [.ofString "d", r.bundle.text, .ofString "-o", r.output.text]

/-- What came of running a tool: its answer, the files as it left them, and what it let out. -/
structure ToolRun (α : Type) where
  answer : Except Failure α
  files : FileSystem
  events : Journal

structure Toolchain where
  compile : CompileRequest → FileSystem → ToolRun CompilerLog
  package : PackageRequest → FileSystem → ToolRun Unit
  disassemble : DisassembleRequest → FileSystem → ToolRun Unit

namespace Host

/-- An event that a tool lets out, as it goes into the journal: a line of its log carries the input
under conversion, and it cannot put calls on record. -/
def ofTool (input : Option Path) : Event → Option Event
  | .log line => some (.log { line with input })
  | .output stream bytes => some (.output stream bytes)
  | .called .. => none

/-- Calls a tool: the call is put on record, then the tool works on the files. -/
def call {α : Type} (tool : Tool) (arguments : List OsString) (run : FileSystem → ToolRun α) :
    Action (Except Failure α) := do
  let files := (← get).files
  emit (.called ⟨tool.name, arguments⟩ files)
  let r := run files
  modify fun h =>
    { h with files := r.files, journal := h.journal ++ r.events.filterMap (ofTool h.input) }
  return r.answer

end Host

namespace Toolchain

/-- Has the compiler run; the answer is all it printed. -/
def runCompiler (t : Toolchain) (r : CompileRequest) : Host.Action (Except Failure CompilerLog) :=
  Host.call .compiler r.arguments (t.compile r)

def runPackager (t : Toolchain) (r : PackageRequest) : Host.Action (Except Failure Unit) :=
  Host.call .packager r.arguments (t.package r)

def runDisassembler (t : Toolchain) (r : DisassembleRequest) : Host.Action (Except Failure Unit) :=
  Host.call .disassembler r.arguments (t.disassemble r)

end Toolchain
end SmaliBuild
