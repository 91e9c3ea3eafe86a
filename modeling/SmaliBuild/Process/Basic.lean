import SmaliBuild.Files.Basic
import SmaliBuild.Journal
/-!
# Processes

What is seen of a program that was started: whether it could be, what it printed, what it left in
the files and how it ended.  A `Launcher` is a system that can start programs.
-/
namespace SmaliBuild

inductive ExitStatus where
  | exited (code : Nat)
  | killed (signal : Nat)
deriving DecidableEq, Repr

namespace ExitStatus

def signalName : Nat → String
  | 1 => " (SIGHUP)"
  | 2 => " (SIGINT)"
  | 3 => " (SIGQUIT)"
  | 6 => " (SIGABRT)"
  | 9 => " (SIGKILL)"
  | 10 => " (SIGUSR1)"
  | 11 => " (SIGSEGV)"
  | 12 => " (SIGUSR2)"
  | 13 => " (SIGPIPE)"
  | 14 => " (SIGALRM)"
  | 15 => " (SIGTERM)"
  | _ => ""

def text : ExitStatus → String
  | exited code => s!"exit status: {code}"
  | killed signal => s!"signal: {signal}{signalName signal}"

end ExitStatus

/-- Bytes that were printed, with their stream, in order. -/
abbrev Printed := List (Stream × Bytes)

def Printed.on (stream : Stream) (p : Printed) : Bytes :=
  p.flatMap fun (s, bytes) => if s = stream then bytes else []

/-- What came of starting a program: its end, or why it could not be started. -/
structure ProcessRun where
  ending : Except IoError ExitStatus
  files : FileSystem
  printed : Printed

/-- A system that starts a program given by a list of words: its name and its arguments. -/
abbrev Launcher := (words : List OsString) → FileSystem → ProcessRun

end SmaliBuild
