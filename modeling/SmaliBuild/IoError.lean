/-!
# Errors of file and process calls

`IoError` is why a call to the operating system failed: an error number of the system, or a fault
found before the system was asked.  `IoError.message` is its wording and `IoError.isAbsence` the
one distinction that the program itself makes.
-/
namespace SmaliBuild

abbrev Errno := Nat

namespace Errno
def noEntry : Errno := 2
def notExecutable : Errno := 8
def denied : Errno := 13
def busy : Errno := 16
def alreadyThere : Errno := 17
def notDirectory : Errno := 20
def isDirectory : Errno := 21
def invalid : Errno := 22
def nameTooLong : Errno := 36
def notEmpty : Errno := 39
def linkLoop : Errno := 40

def text : Errno → String
  | 1 => "Operation not permitted"
  | 2 => "No such file or directory"
  | 5 => "Input/output error"
  | 7 => "Argument list too long"
  | 8 => "Exec format error"
  | 13 => "Permission denied"
  | 16 => "Device or resource busy"
  | 17 => "File exists"
  | 20 => "Not a directory"
  | 21 => "Is a directory"
  | 22 => "Invalid argument"
  | 28 => "No space left on device"
  | 30 => "Read-only file system"
  | 36 => "File name too long"
  | 39 => "Directory not empty"
  | 40 => "Too many levels of symbolic links"
  | n => s!"Unknown error {n}"

end Errno

inductive IoError where
  /-- the system refused -/
  | os (errno : Errno)
  /-- a path that no file call can take, since it holds a NUL -/
  | nulInPath
  /-- the empty path, which names nothing to make absolute -/
  | emptyPath
  /-- a NUL in a program name or an argument -/
  | nulInCommand
  /-- a text file whose bytes are no text -/
  | notText
  /-- an error with a wording of its own -/
  | other (text : String)
deriving DecidableEq, Repr, Inhabited

namespace IoError

def message : IoError → String
  | .os n => s!"{n.text} (os error {n})"
  | .nulInPath => "file name contained an unexpected NUL byte"
  | .emptyPath => "cannot make an empty path absolute"
  | .nulInCommand => "nul byte found in provided data"
  | .notText => "stream did not contain valid UTF-8"
  | .other text => text

/-- The error says that nothing is there. -/
def isAbsence (e : IoError) : Bool := e == .os Errno.noEntry

end IoError
end SmaliBuild
