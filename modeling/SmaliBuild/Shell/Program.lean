import SmaliBuild.Shell.Utility
/-!
# Programs in the file system

A file can run if it is marked so and holds a program: one for the machine itself, which begins with
a fixed mark, or a script whose first line names its interpreter.  `find` looks a program up by name
as the system does when it starts one.
-/
namespace SmaliBuild.Shell

/-- A program that the machine runs by itself. -/
inductive Native where
  | shell
  /-- the program that had a script started -/
  | starter
  | utility (name : String) (u : Utility)
deriving DecidableEq, Repr

namespace Native

/-- The bytes that such a program begins with. -/
def mark : Bytes := [0x7f, 0x45, 0x4c, 0x46]

def shellName : String := "sh"

def ofName? (name : String) : Option Native :=
  if name = shellName then some .shell
  else (Utility.named.lookup name).map (.utility name)

def names : List String := shellName :: Utility.named.map (·.1)

def image (name : String) : Bytes := mark ++ toWord name

end Native

/-- What the content of a file asks to run. -/
inductive Image where
  | native (n : Native)
  | script (interpreter : Path) (argument : Option String)

/-- The interpreter on the first line, with its argument. -/
def interpreter? (s : List Char) : Option Image :=
  let isGap (c : Char) : Bool := c == ' ' || c == '\t'
  let line := (s.takeWhile (· ≠ '\n')).dropWhile isGap
  let name := line.takeWhile (!isGap ·)
  let argument := ((line.dropWhile (!isGap ·)).dropWhile isGap).reverse.dropWhile isGap
  if name = [] then none
  else some (.script ⟨toBytes name⟩ (if argument = [] then none else some (String.ofList argument.reverse)))

/-- What a file's content asks to run, if it is a program. -/
def Image.ofBytes? (bytes : Bytes) : Option Image :=
  if Native.mark.isPrefixOf bytes then
    (Native.ofName? (ofWord (bytes.drop Native.mark.length))).map .native
  else match bytes with
    | 0x23 :: 0x21 :: rest => interpreter? (toChars rest)
    | _ => none

/-- The native program that runs a file, and the words it is given.  Interpreters may be scripts
themselves, up to `nesting` of them. -/
def load (fs : FileSystem) (directory : Location) : (nesting : Nat) → (file : Path) →
    (words : List String) → Except IoError (Native × List String)
  | 0, _, _ => .error (.os .linkLoop)
  | nesting + 1, file, words =>
    if file = starterPath then .ok (.starter, words)
    else match fs.stat directory file with
    | .error e => .error e
    | .ok (.file content true) =>
      match Image.ofBytes? content with
      | none => .error (.os .notExecutable)
      | some (.native n) => .ok (n, words)
      | some (.script i argument) =>
        load fs directory nesting i
          (ofPath i :: argument.toList ++ ofPath file :: words.tail)
    | .ok _ => .error (.os .denied)

/-- How many interpreters may stand one behind the other. -/
def interpreterLimit : Nat := 6

/-- The first program that can be loaded from directories.  Where there is none, a file that may not
run is told apart from no file at all. -/
def search (fs : FileSystem) (directory : Location) (words : List String) : (denied : Bool) →
    List Path → Except IoError (Native × List String)
  | denied, [] => .error (.os (if denied then .denied else .noEntry))
  | denied, file :: rest =>
    match load fs directory interpreterLimit file words with
    | .ok found => .ok found
    | .error e =>
      if e = .os .noEntry ∨ e = .os .notDirectory then search fs directory words denied rest
      else if e = .os .denied then search fs directory words true rest
      else .error e

/-- The program that the first word names, and the words it is given.  A name with a slash is a
path; another one is looked up in the directories of `searchPath`. -/
def find (fs : FileSystem) (directory : Location) (searchPath : String) (words : List String) :
    Except IoError (Native × List String) :=
  let name := words.headD ""
  if name = "" then .error (.os .noEntry)
  else if name.contains '/' then
    load fs directory interpreterLimit (toPath name) words
  else if nameLimit < name.length then .error (.os .nameTooLong)
  else
    let place (d : String) : Path :=
      if d = "" then toPath name else (toPath d).join (toPath name)
    search fs directory words false ((searchPath.splitOn ":").map place)

end SmaliBuild.Shell
