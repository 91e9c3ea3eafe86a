import SmaliBuild.Files.Resolve
/-!
# File calls

What a program can ask of a file system, each call with the errors the system gives and in the
order it finds them.  A call that fails leaves the file system as it was: it returns no new one.
-/
namespace SmaliBuild.FileSystem

/-- What stands at a path, a final link not followed. -/
def lstat (fs : FileSystem) (directory : Location) (p : Path) : Except IoError Entry := do
  let l ← fs.locate directory false p
  match fs.get? l with
  | some e => return e
  | none => throw (.os .noEntry)

def stat (fs : FileSystem) (directory : Location) (p : Path) : Except IoError Entry := do
  let l ← fs.locate directory true p
  match fs.get? l with
  | some e => return e
  | none => throw (.os .noEntry)

def isDirectory (fs : FileSystem) (directory : Location) (p : Path) : Bool :=
  match fs.stat directory p with
  | .ok e => e.isDirectory
  | .error _ => false

/-- The names in the directory that a path leads to. -/
def list (fs : FileSystem) (directory : Location) (p : Path) : Except IoError (List Name) := do
  let l ← fs.locate directory true p
  match fs.get? l with
  | some .directory => return fs.names l
  | some _ => throw (.os .notDirectory)
  | none => throw (.os .noEntry)

theorem check_of_locate {fs : FileSystem} {directory l : Location} {follow : Bool} {p : Path}
    (h : fs.locate directory follow p = .ok l) : p.check = .ok () := by
  unfold locate at h
  cases ha : p.check with
  | error e => rw [ha] at h; exact nomatch h
  | ok u => rfl

theorem byteLength_lt_of_list {fs : FileSystem} {directory : Location} {p : Path}
    {names : List Name} (h : fs.list directory p = .ok names) : p.byteLength < pathLimit := by
  unfold list at h
  cases hl : fs.locate directory true p with
  | error e => rw [hl] at h; exact nomatch h
  | ok l => exact Path.byteLength_lt_of_check (check_of_locate hl)

/-- The content of the file that a path leads to. -/
def read (fs : FileSystem) (directory : Location) (p : Path) : Except IoError Bytes := do
  match ← fs.stat directory p with
  | .file content _ => return content
  | _ => throw (.os .isDirectory)

/-- Removes an entry that is no directory; a link is removed, not what it leads to. -/
def unlink (fs : FileSystem) (directory : Location) (p : Path) : Except IoError FileSystem := do
  match ← fs.place directory p with
  | (d, .name n) =>
    match fs.get? (n :: d) with
    | none => throw (.os .noEntry)
    | some .directory => throw (.os .isDirectory)
    | some _ =>
      if p.endsWithSlash then throw (.os .notDirectory) else return fs.prune (n :: d)
  | _ => throw (.os .isDirectory)

def rmdir (fs : FileSystem) (directory : Location) (p : Path) : Except IoError FileSystem := do
  match ← fs.place directory p with
  | (d, .name n) =>
    match fs.get? (n :: d) with
    | none => throw (.os .noEntry)
    | some .directory =>
      if fs.names (n :: d) = [] then return fs.prune (n :: d) else throw (.os .notEmpty)
    | some _ => throw (.os .notDirectory)
  | (_, .dot) => throw (.os .invalid)
  | (_, .up) => throw (.os .notEmpty)
  | (_, .root) => throw (.os .busy)

/-- The new entry `e` under a path at which nothing stands; also its location. -/
def create (fs : FileSystem) (directory : Location) (p : Path) (e : Entry) :
    Except IoError (FileSystem × Location) := do
  match ← fs.place directory p with
  | (d, .name n) =>
    match hn : fs.get? (n :: d), hd : fs.get? d with
    | none, some .directory => return (fs.insert n d e hn hd, n :: d)
    | none, _ => throw (.os .noEntry)
    | some _, _ => throw (.os .alreadyThere)
  | _ => throw (.os .alreadyThere)

/-- A path asks for a directory by a slash behind a name, so that no file can be opened under it to
be written. -/
def asksForDirectory (fs : FileSystem) (directory : Location) (p : Path) : Except IoError Bool := do
  match ← fs.enclosing directory p with
  | (_, some s) => return p.endsWithSlash && s != [dot] && s != Path.up
  | (_, none) => return false

/-- A new empty file, which must not exist under that path in any form. -/
def createFile (fs : FileSystem) (directory : Location) (p : Path) :
    Except IoError (FileSystem × Location) := do
  if ← fs.asksForDirectory directory p then throw (.os .isDirectory)
  match ← fs.place directory p with
  | (_, .name _) => fs.create directory p (.file [] false)
  | _ => throw (.os .alreadyThere)

def mkdir (fs : FileSystem) (directory : Location) (p : Path) : Except IoError FileSystem := do
  return (← fs.create directory p .directory).1

def symlink (fs : FileSystem) (directory : Location) (p target : Path) :
    Except IoError FileSystem := do
  if 0 ∈ target.text then throw .nulInPath
  if target.text = [] then throw (.os .noEntry)
  if pathLimit ≤ target.byteLength then throw (.os .nameTooLong)
  if p.endsWithSlash then
    match fs.lstat directory p with
    | .ok _ => throw (.os .alreadyThere)
    | .error e => throw e
  return (← fs.create directory p (.link target)).1

def append (fs : FileSystem) (l : Location) (bytes : Bytes) : FileSystem :=
  match fs.get? l with
  | some (.file content _) => fs.setContent l (content ++ bytes)
  | _ => fs

/-- The location of the file that writing to a path is to fill: the one the path leads to, or a new
one where a chain of at most `links` links ends. -/
def destination (fs : FileSystem) (links : Nat) (directory : Location) (p : Path) :
    Except IoError (FileSystem × Location) :=
  match fs.asksForDirectory directory p, fs.place directory p with
  | .error e, _ => .error e
  | .ok true, _ => .error (.os .isDirectory)
  | .ok false, .error e => .error e
  | .ok false, .ok (d, .name n) =>
    match fs.get? (n :: d), links with
    | none, _ => fs.create directory p (.file [] false)
    | some .directory, _ => .error (.os .isDirectory)
    | some (.file ..), _ => .ok (fs, n :: d)
    | some (.link _), 0 => .error (.os .linkLoop)
    | some (.link target), links + 1 => fs.destination links d target
  | .ok false, .ok _ => .error (.os .isDirectory)

/-- The file that a path leads to, or a new one, with `content` for all its content. -/
def write (fs : FileSystem) (directory : Location) (p : Path) (content : Bytes) :
    Except IoError FileSystem := do
  let (fs, l) ← fs.destination linkLimit directory p
  return fs.setContent l content

/-- The file that a path leads to, or a new one, with `content` after what it holds. -/
def writeAfter (fs : FileSystem) (directory : Location) (p : Path) (content : Bytes) :
    Except IoError FileSystem := do
  let (fs, l) ← fs.destination linkLimit directory p
  return fs.append l content

/-- Makes a file that a path leads to fit to run, or not. -/
def chmod (fs : FileSystem) (directory : Location) (p : Path) (executable : Bool) :
    Except IoError FileSystem := do
  return fs.setExecutable (← fs.locate directory true p) executable

/-- The directory at a path and those around it that are missing.  Where something else than a
directory is in the way, the directories made so far stay. -/
def mkdirAll (fs : FileSystem) (directory : Location) (p : Path) :
    FileSystem × Except IoError Unit :=
  if p.text = [] then (fs, .ok ())
  else match fs.mkdir directory p with
    | .ok made => (made, .ok ())
    | .error e =>
      if e.isAbsence then
        match p.parent with
        | none => (fs, .error e)
        | some q =>
          if q.text.length < p.text.length then
            match fs.mkdirAll directory q with
            | (fs, .error e) => (fs, .error e)
            | (fs, .ok ()) =>
              match fs.mkdir directory p with
              | .ok made => (made, .ok ())
              | .error e => if fs.isDirectory directory p then (fs, .ok ()) else (fs, .error e)
          else (fs, .error e)
      else if fs.isDirectory directory p then (fs, .ok ()) else (fs, .error e)
termination_by p.text.length

/-- Removes a path's entry with everything below it; what is missing already is no error. -/
def removeAll (fs : FileSystem) (directory : Location) (p : Path) :
    Except IoError FileSystem := do
  match fs.lstat directory p with
  | .error e => if e.isAbsence then return fs else throw e
  | .ok _ =>
    match ← fs.place directory p with
    | (d, .name n) => return fs.prune (n :: d)
    | _ => throw (.os .invalid)

end SmaliBuild.FileSystem
