import SmaliBuild.CommandLine.Completion
import SmaliBuild.CommandLine.Parse
import SmaliBuild.Config.File
import SmaliBuild.Process.Tools
import SmaliBuild.Report
/-!
# The program

`Program.run` does what a command line asks for on a host whose programs are started by a given
launcher, and answers the exit status.  A conversion or a sweep that cannot be carried out ends with
a diagnosis on the error stream and the status 1, whatever was done before.
-/
namespace SmaliBuild

inductive Abort where
  | noDirectory (cause : IoError)
  | refused (r : Refusal)
  | failed (f : Failure)
deriving DecidableEq, Repr

namespace Abort

def diagnosis : Abort → Diagnosis
  | noDirectory cause =>
    ⟨"Failed to read current directory", some cause.message, none, none, none⟩
  | refused r => r.diagnosis
  | failed f => f.diagnosis

/-- What the compiler printed, if that is what the user has to read. -/
def compilerLog? : Abort → Option CompilerLog
  | failed f => f.compilerLog?
  | _ => none

/-- All that the user is told: the compiler's text first, without blanks at its end. -/
def text (a : Abort) : String :=
  (match a.compilerLog? with
    | none => ""
    | some log => String.ofList (Text.trimEnd log.text) ++ "\n") ++ a.diagnosis.render

end Abort

namespace Program

/-- The configuration for a conversion: from a file, or the standard one. -/
def loadConfig (named : Option Path) : Host.Action (Except Abort Config) := do
  match ← Host.currentDirectory with
  | .error e => return .error (.noDirectory e)
  | .ok directory =>
    match ← ConfigFile.find named directory with
    | .error r => return .error (.refused r)
    | .ok none => return .ok .standard
    | .ok (some file) =>
      Host.log .debug "Loaded config" [("path", toString file.path)]
      return .ok file.config

/-- Puts the entries of a manifest into the log. -/
def logEntries : List Path → Host.Action Unit
  | [] => return
  | p :: rest => do
    Host.log .trace s!"Listed {p}"
    logEntries rest

/-- Converts an input with the tools of a configuration. -/
def convertWith (launch : Launcher) (config : Config) (t : Input) (optimize : Bool) :
    Host.Action (Except Abort ConvertReport) := do
  let (result, _) ← Conversion.run (config.toolchain launch) optimize t
  match result with
  | .error f => return .error (.failed f)
  | .ok c =>
    logEntries ((c.compiled.manifest.map Manifest.entries).getD [])
    return .ok (.ofConversion c optimize)

/-- Converts the input at a path.  The configuration is read before the path is looked at. -/
def convert (launch : Launcher) (named : Option Path) (p : Path) (optimize : Bool) :
    Host.Action (Except Abort ConvertReport) := do
  match ← loadConfig named with
  | .error a => return .error a
  | .ok config =>
    Host.log .debug "Using toolchain" (Tool.all.map fun t => (t.key, (config.command t).text))
    match ← Input.resolve p with
    | .error f => return .error (.failed f)
    | .ok t => convertWith launch config t optimize

/-- Sweeps away what a conversion of the input at a path left. -/
def clean (p : Path) (dryRun : Bool) : Host.Action (Except Abort CleanReport) := do
  match ← Input.resolve p with
  | .error f => return .error (.failed f)
  | .ok t => return .ok (← CleanReport.perform t dryRun)

/-- The report of a request that was carried out. -/
def perform (launch : Launcher) (c : CommandLine) : Host.Action (Except Abort (List ReportItem)) := do
  match c.request with
  | .convert p optimize => return (← convert launch c.config p optimize).map ConvertReport.items
  | .clean p dryRun => return (← clean p dryRun).map CleanReport.items
  | .completions shell =>
    Host.print .out shell.script
    return .ok []

/-- Does what a command line asks for; answers the exit status. -/
def run (launch : Launcher) (c : CommandLine) : Host.Action Nat := do
  match ← perform launch c with
  | .ok items =>
    ReportItem.printAll items
    return 0
  | .error a =>
    Host.print .err a.text
    return 1

/-- What is printed for a command line that is no request, and the exit status. -/
def answerDetour : Detour → Host.Action Nat
  | .help topic => do
    Host.print .out topic.text
    return 0
  | .version => do
    Host.print .out s!"{programName} {programVersion}\n"
    return 0
  | .nothing => do
    Host.print .err (HelpTopic.scope .program).text
    return 2
  | .mistake e => do
    Host.print .err s!"{e.message}\n\nFor more information, try '--help'.\n"
    return 2

/-- Runs the program with the words of a command line; answers the exit status and how much of the
log is shown. -/
def answer (launch : Launcher) (words : List OsString) : Host.Action (Nat × Level) := do
  match CommandLine.parse words with
  | .error detour => return (← answerDetour detour, .info)
  | .ok c => return (← run launch c, c.verbosity)

end Program
end SmaliBuild
