import SmaliBuild.Failure
import SmaliBuild.Host
import SmaliBuild.Workspace
/-!
# The input of a conversion

An `Input` is a source file or a source directory by its absolute path.  `Input.resolve` makes one
from what the user typed and is the only place where a conversion refuses its input.
-/
namespace SmaliBuild

inductive Input where
  | sourceFile (path : Path)
  | sourceDirectory (path : Path)
deriving DecidableEq, Repr

def doubleQuote : UInt8 := 0x22

/-- A path without one double quote at its end, which some shells leave there.  A path that is no text
stays as it is. -/
def Path.withoutTrailingQuote (p : Path) : Path :=
  if Text.isText p.text ∧ p.text.getLast? = some doubleQuote then ⟨p.text.dropLast⟩ else p

namespace Input

def path : Input → Path
  | .sourceFile p | .sourceDirectory p => p

def isDirectory : Input → Bool
  | .sourceFile _ => false
  | .sourceDirectory _ => true

/-- The input at an absolute path where `e` was found.  A file that is its own class file is
refused, since the end of a conversion deletes class files; a directory whose path contains a space
is refused, since a manifest does not quote its paths. -/
def ofEntry (p : Path) (e : Entry) : Except Failure Input :=
  if e.isDirectory then
    if ' ' ∈ Text.decodeLossy p.text then .error (.spacesInDirectoryPath p) else .ok (.sourceDirectory p)
  else if p.compiledFile = p then .error (.compiledInput p)
  else .ok (.sourceFile p)

/-- The input that a path typed by the user names. -/
def resolve (typed : Path) : Host.Action (Except Failure Input) := do
  let typed := typed.withoutTrailingQuote
  match ← Host.absolute typed with
  | .error e => return .error (.io typed e)
  | .ok p =>
    match ← Host.stat p with
    | .error e => return .error (if e.isAbsence then .inputNotFound p else .io p e)
    | .ok e => return ofEntry p e

def directory (t : Input) : Path := t.path.parent.getD t.path

def workspace (t : Input) : Workspace := .inDirectory t.directory

def compiled : Input → Path
  | .sourceFile p => p.compiledFile
  | .sourceDirectory p => p.compiledDirectory

def displayName (t : Input) : String :=
  let name := match t.path.fileName with
    | some s => s.shown
    | none => toString t.path
  if t.isDirectory then s!"{name} folder" else name

end Input
end SmaliBuild
