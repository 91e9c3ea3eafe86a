import SmaliBuild.Files.Calls
import SmaliBuild.Journal
/-!
# The host of a run

A `Host` is the machine that a run happens on: its files, the directory it works in, the calls
that are going to fail for reasons of the machine, and the journal so far.  The calls of the
library go through it.  Each call of `Host.Action` that touches the file system is counted, and the
count decides whether it fails: `faults n` is the trouble that the `n`-th call meets, if any.
`Host.sound` is a machine without trouble.
-/
namespace SmaliBuild

/-- Trouble of the machine that stops a call: the error it returns and, for a call that works bit
by bit, how far it came before (none if it was refused at once).  That nothing is there is no
trouble. -/
structure Fault where
  error : IoError
  progress : Option Nat
  present : error.isAbsence = false
deriving DecidableEq, Repr

structure Host where
  files : FileSystem
  directory : Location
  faults : Nat → Option Fault
  made : Nat
  input : Option Path
  journal : Journal

namespace Host

/-- A machine on which no call fails without a reason in its files. -/
def sound (files : FileSystem) (directory : Location) : Host :=
  ⟨files, directory, fun _ => none, 0, none, []⟩

abbrev Action (α : Type) := StateM Host α

def emit (e : Event) : Action Unit := modify fun h => { h with journal := h.journal ++ [e] }

def log (level : Level) (message : String) (fields : List (String × String) := []) :
    Action Unit := do
  emit (.log ⟨level, (← get).input, message, fields⟩)

def print (stream : Stream) (s : String) : Action Unit :=
  emit (.output stream (Text.encode s.toList))

/-- The trouble that the call now made meets; the call counts. -/
def trouble : Action (Option Fault) := modifyGet fun h => (h.faults h.made, { h with made := h.made + 1 })

def look {α : Type} (ask : FileSystem → Location → Except IoError α) :
    Action (Except IoError α) := do
  match ← trouble with
  | some fault => return .error fault.error
  | none =>
    let h ← get
    return ask h.files h.directory

/-- A call that changes the files unless it fails. -/
def change (act : FileSystem → Location → Except IoError FileSystem) :
    Action (Except IoError Unit) := do
  match ← trouble with
  | some fault => return .error fault.error
  | none =>
    let h ← get
    match act h.files h.directory with
    | .error e => return .error e
    | .ok files =>
      set { h with files }
      return .ok ()

/-- What stands at a path, a final link not followed. -/
def lstat (p : Path) : Action (Except IoError Entry) := look fun fs d => fs.lstat d p

def stat (p : Path) : Action (Except IoError Entry) := look fun fs d => fs.stat d p

/-- A path leads to a directory; a call that fails says no. -/
def isDirectory (p : Path) : Action Bool := do
  match ← stat p with
  | .ok e => return e.isDirectory
  | .error _ => return false

/-- The content of the file that a path leads to. -/
def read (p : Path) : Action (Except IoError Bytes) := look fun fs d => fs.read d p

def unlink (p : Path) : Action (Except IoError Unit) := change fun fs d => fs.unlink d p

def rmdir (p : Path) : Action (Except IoError Unit) := change fun fs d => fs.rmdir d p

/-- What came of listing the directory at `p`: the names that were read, and the error that broke
the reading off.  A path that can be listed is not too long. -/
structure Listing (p : Path) where
  names : List Name
  broken : Option IoError
  short : p.byteLength < pathLimit

/-- The entries of the directory that a path leads to. -/
def list (p : Path) : Action (Except IoError (Listing p)) := do
  let fault ← trouble
  let h ← get
  match hl : h.files.list h.directory p with
  | .error e => return .error (match fault with | some f => f.error | none => e)
  | .ok names =>
    have short := FileSystem.byteLength_lt_of_list hl
    match fault with
    | none => return .ok ⟨names, none, short⟩
    | some ⟨e, none, _⟩ => return .error e
    | some ⟨e, some n, _⟩ => return .ok ⟨names.take n, some e, short⟩

/-- A new empty file, which must not exist under that path in any form; its location serves for
writing to it. -/
def createFile (p : Path) : Action (Except IoError Location) := do
  match ← trouble with
  | some fault => return .error fault.error
  | none =>
    let h ← get
    match h.files.createFile h.directory p with
    | .error e => return .error e
    | .ok (files, l) =>
      set { h with files }
      return .ok l

/-- Writes to the end of a file that is open.  Under trouble a first part of the bytes may reach
the file. -/
def append (l : Location) (bytes : Bytes) : Action (Except IoError Unit) := do
  match ← trouble with
  | some fault =>
    modify fun h => { h with files := h.files.append l (bytes.take (fault.progress.getD 0)) }
    return .error fault.error
  | none =>
    modify fun h => { h with files := h.files.append l bytes }
    return .ok ()

def currentDirectory : Action (Except IoError Path) := do
  let h ← get
  match h.files.get? h.directory with
  | some .directory => return .ok h.directory.path
  | _ => return .error (.os .noEntry)

/-- The absolute spelling of a path.  The working directory is asked for only if the path needs
it. -/
def absolute (p : Path) : Action (Except IoError Path) := do
  if p.text = [] then return .error .emptyPath
  if p.isAbsolute then return p.absolute ⟨[slash]⟩
  match ← currentDirectory with
  | .error e => return .error e
  | .ok d => return p.absolute d

end Host
end SmaliBuild
