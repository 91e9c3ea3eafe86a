import SmaliBuild.Program
import SmaliBuild.Shell.Machine
/-!
# The command line

The program runs on a machine of its own, which a script on standard input sets up: the script makes
the sources, the configuration and the tools.  The command line's words are the program's; what it
prints and its exit status are passed on.
-/
namespace SmaliBuild

/-- The directory in which the script and the program run. -/
def workPath : Path := .ofString "/work"

/-- A machine with the native programs and an empty directory to work in. -/
def freshFiles : FileSystem :=
  let fs := Shell.install (Shell.install .empty (.ofString "/bin")) (.ofString "/usr/bin")
  (fs.mkdirAll [] workPath).1

def workEnvironment (fs : FileSystem) : Shell.Environment where
  directory := match fs.locate [] true workPath with
    | .ok l => l
    | .error _ => []
  bindings := [("PATH", "/work/bin:/usr/bin:/bin"), ("HOME", "/work"), ("LC_ALL", "C")]

/-- The host of a run of the program after the script has set it up. -/
def hostAfter (script : OsString) : Host :=
  let e := workEnvironment freshFiles
  let run := e.run (e.again Shell.Environment.nestingLimit) freshFiles .shell [Shell.Native.shellName, "-c", Shell.ofWord script]
  Host.sound run.files e.directory

/-- The exit status of the program and what it prints on its two streams. -/
def outcome (script : OsString) (words : List OsString) : Nat × Bytes × Bytes :=
  let e := workEnvironment freshFiles
  let ((status, level), h) := Program.answer e.launcher words (hostAfter script)
  (status, h.journal.shown level .out, h.journal.shown level .err)

end SmaliBuild

partial def readAll (stream : IO.FS.Stream) (before : String) : IO String := do
  let line ← stream.getLine
  if line.isEmpty then return before else readAll stream (before ++ line)

def main (words : List String) : IO UInt32 := do
  let script ← readAll (← IO.getStdin) ""
  let (status, out, err) := SmaliBuild.outcome (.ofString script) (words.map .ofString)
  let stdout ← IO.getStdout
  stdout.write ⟨out.toArray⟩
  stdout.flush
  let stderr ← IO.getStderr
  stderr.write ⟨err.toArray⟩
  stderr.flush
  return status.toUInt32
