import SmaliBuild.Conversion
/-!
# Reports

A report says what a command did as a list of items; `ReportItem.text` and `ReportItem.stream` fix
how and where an item is printed.  Warnings come first and go to the error stream.
-/
namespace SmaliBuild

inductive ReportItem where
  | warning (text : String)
  | keyValue (key value : String)
  | section (title : String)
  | removed (path : String)
  | plain (text : String)
  | newline
deriving DecidableEq, Repr

namespace ReportItem

def text : ReportItem → String
  | .warning s => s!"warning: {s}\n"
  | .keyValue k v => s!"{k}: {v}\n"
  | .section s => s!"{s}:\n"
  | .removed p => s!"  - {p}\n"
  | .plain s => s!"{s}\n"
  | .newline => "\n"

def stream : ReportItem → Stream
  | .warning _ => .err
  | _ => .out

def printAll : List ReportItem → Host.Action Unit
  | [] => return
  | i :: rest => do
    Host.print i.stream i.text
    printAll rest

end ReportItem

/-- A path that could not be put on the manifest. -/
def Setback.manifestMessage (s : Setback) : String := s!"cannot add '{s.path}' to the manifest"

def Setback.sweepMessage (s : Setback) : String := s!"cannot delete '{s.path}'"

/-- The warning about a path that is not on the manifest. -/
def Setback.manifestWarning (s : Setback) : String := s!"{s.manifestMessage}: {s.cause.message}"

def Setback.sweepWarning (s : Setback) : String := s!"{s.sweepMessage}: {s.cause.message}"

structure ConvertReport where
  input : Path
  sources : Option Nat
  optimize : Bool
  output : Path
  cleaned : List Path
  warnings : List String
deriving DecidableEq, Repr

namespace ConvertReport

/-- What kind of input it was, with the number of sources of a directory. -/
def mode (r : ConvertReport) : String :=
  match r.sources with
  | none => "file"
  | some 1 => "directory (1 source)"
  | some n => s!"directory ({n} sources)"

def items (r : ConvertReport) : List ReportItem :=
  r.warnings.map .warning ++
  [.keyValue "Input" (toString r.input), .keyValue "Mode" r.mode,
    .keyValue "Optimize" (if r.optimize then "yes" else "no"),
    .keyValue "Output" (toString r.output)] ++
  if r.cleaned = [] then []
  else [.newline, .section "Cleaned"] ++ r.cleaned.map fun p => .removed (toString p)

/-- The report of a conversion: first the manifest's gaps, then what the sweep left. -/
def ofConversion (c : Conversion) (optimize : Bool) : ConvertReport where
  input := c.input.path
  sources := c.compiled.manifest.map (·.entries.length)
  optimize := optimize
  output := c.output
  cleaned := c.sweep.deleted
  warnings :=
    (match c.compiled.manifest with
      | none => []
      | some m => m.skipped.map (·.manifestWarning)) ++
    c.sweep.errors.map (·.sweepWarning)

end ConvertReport

/-- What a sweep on demand tells the user. -/
structure CleanReport where
  dryRun : Bool
  deleted : List Path
  warnings : List String
deriving DecidableEq, Repr

namespace CleanReport

def items (r : CleanReport) : List ReportItem :=
  r.warnings.map .warning ++
  if r.deleted = [] then [.plain "No intermediate artifacts found."]
  else .section (if r.dryRun then "Would delete" else "Deleted") ::
    r.deleted.map fun p => .removed (toString p)

/-- Sweeps the artifacts of an input away, or with `dryRun` only says which there are. -/
def perform (t : Input) (dryRun : Bool) : Host.Action CleanReport := do
  if dryRun then return ⟨true, ← Sweep.pending t.workspace t.compiled, []⟩
  else
    let s ← Sweep.run t.workspace t.compiled
    return ⟨false, s.deleted, s.errors.map (·.sweepWarning)⟩

end CleanReport
end SmaliBuild
