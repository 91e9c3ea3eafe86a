import SmaliBuild.Program
import SmaliBuild.Shell.Evaluate
/-!
# Machines with a shell

A machine starts programs from its files: the native ones, which are the shell and the utilities,
and scripts.  `Environment.launcher` is such a machine.  A script on it can start the program anew that
had it started.
-/
namespace SmaliBuild.Shell

/-- What a program finds around itself when it is started. -/
structure Environment where
  directory : Location
  bindings : List (String × String)

namespace Environment

/-- The directories in which programs are looked up. -/
def searchPath (e : Environment) : String := (e.bindings.lookup "PATH").getD "/bin:/usr/bin"

/-- The session that a program starts in: nothing to read, and both streams shown. -/
def session (e : Environment) (starter : Location → Launcher) (fs : FileSystem) : Session where
  files := fs
  directory := e.directory
  bindings := ("PPID", toString starterNumber) :: e.bindings
  name := Native.shellName
  arguments := []
  status := 0
  input := []
  targets := [(1, .terminal .out), (2, .terminal .err)]
  printed := []
  piped := []
  control := .running
  starter := starter

def run (e : Environment) (starter : Location → Launcher) (fs : FileSystem) (program : Native)
    (words : List String) : ProcessRun :=
  let s := match program with
    | .shell => runShell words (e.session starter fs)
    | .starter => (e.session starter fs).after (starter e.directory (words.map toWord) fs)
    | .utility name u =>
      let (status, s) := u.run name name words.tail (e.session starter fs)
      { s with status }
  { ending := .ok (match s.control with
      | .killed signal => .killed signal
      | _ => .exited s.status)
    files := s.files
    printed := s.printed.reverse }
where
  runShell (words : List String) (s : Session) : Session :=
    (startShell depthLimit words s).2

def launch (e : Environment) (starter : Location → Launcher) : Launcher := fun words fs =>
  if words.any fun w => w.contains 0 then ⟨.error .nulInCommand, fs, []⟩
  else match find fs e.directory e.searchPath (words.map ofWord) with
    | .error error => ⟨.error error, fs, []⟩
    | .ok (program, words) => e.run starter fs program words

/-- The program started anew from a directory, by the tools of a run up to `nesting` times one within
the other. -/
def again (e : Environment) : (nesting : Nat) → Location → Launcher
  | 0, _ => fun _ fs => ⟨.error (.os .busy), fs, []⟩
  | nesting + 1, directory => fun words fs =>
    let e := { e with directory }
    let ((status, level), h) :=
      Program.answer (e.launch (e.again nesting)) words.tail (Host.sound fs directory)
    { ending := .ok (.exited status)
      files := h.files
      printed := h.journal.flatMap fun event =>
        [Stream.out, .err].map fun stream => (stream, Journal.shownOf level stream event) }

/-- How many runs of the program may stand one within the other. -/
def nestingLimit : Nat := 16

def launcher (e : Environment) : Launcher := e.launch (e.again nestingLimit)

end Environment

/-- Puts the native programs into a directory of a file system. -/
def install (fs : FileSystem) (directory : Path) : FileSystem :=
  let (fs, _) := fs.mkdirAll [] directory
  Native.names.foldl (fun fs name =>
    let p := directory.join (.ofString name)
    match fs.write [] p (Native.image name) with
    | .error _ => fs
    | .ok fs =>
      match fs.chmod [] p true with
      | .error _ => fs
      | .ok fs => fs) fs

end SmaliBuild.Shell
