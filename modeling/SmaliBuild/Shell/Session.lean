import SmaliBuild.Files.Calls
import SmaliBuild.Process.Basic
import SmaliBuild.Shell.Spelling
/-!
# Shell sessions

What a running script works with: the files, its variables and arguments, where its file
descriptors lead to, and what it printed.
-/
namespace SmaliBuild.Shell

/-- Where bytes written to a file descriptor go. -/
inductive Target where
  | terminal (stream : Stream)
  | file (l : Location)
  /-- to whoever reads the session's output -/
  | pipe
  | nowhere
deriving DecidableEq

inductive Control where
  | running
  | leaving
  | killed (signal : Nat)
  | breaking (levels : Nat)
  | continuing (levels : Nat)
deriving DecidableEq

/-- A running script.  What it printed and piped is kept latest first. -/
structure Session where
  files : FileSystem
  directory : Location
  bindings : List (String × String)
  name : String
  arguments : List String
  status : Nat
  input : Bytes
  targets : List (Nat × Target)
  printed : Printed
  piped : List Bytes
  control : Control
  /-- the program that had the script started, as it is started from a directory -/
  starter : Location → Launcher

abbrev Action (α : Type) := StateM Session α

namespace Session

def value? (s : Session) (name : String) : Option String := s.bindings.lookup name

def assign (s : Session) (name value : String) : Session :=
  { s with bindings := (name, value) :: s.bindings.filter (·.1 ≠ name) }

/-- The session with bytes written to a file descriptor; one that is closed takes none. -/
def write (s : Session) (descriptor : Nat) (bytes : Bytes) : Session :=
  match s.targets.lookup descriptor with
  | some (.terminal stream) => { s with printed := (stream, bytes) :: s.printed }
  | some (.file l) => { s with files := s.files.append l bytes }
  | some .pipe => { s with piped := bytes :: s.piped }
  | some .nowhere | none => s

def say (s : Session) (descriptor : Nat) (text : String) : Session :=
  s.write descriptor (toBytes text.toList)

/-- The session with a message about what went wrong on a line of the script. -/
def complain (s : Session) (line : Nat) (message : String) : Session :=
  s.say 2 s!"{s.name}: {line}: {message}\n"

def after (s : Session) (r : ProcessRun) : Session :=
  let descriptor : Stream → Nat
    | .out => 1
    | .err => 2
  let s := r.printed.foldl (fun s (stream, bytes) => s.write (descriptor stream) bytes)
    { s with files := r.files }
  { s with status := match r.ending with
      | .ok (.exited code) => code
      | .ok (.killed signal) => 128 + signal
      | .error _ => 126 }

end Session

/-- The value that the script's own process number shows as. -/
def processNumber : Nat := 4242

/-- The number of the process that had the script started. -/
def starterNumber : Nat := 4241

/-- Where the system shows the program of that process. -/
def starterPath : Path := .ofString s!"/proc/{starterNumber}/exe"

def leave (status : Nat) : Action Unit := modify fun s => { s with status, control := .leaving }

end SmaliBuild.Shell
