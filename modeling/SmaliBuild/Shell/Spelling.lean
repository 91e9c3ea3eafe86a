import SmaliBuild.Path.Basic
/-!
# Bytes in scripts

A shell without a language of its own knows bytes only.  Within it a string has one character for each
byte, the one of the byte's number, so that what a script handles need not be text.
-/
namespace SmaliBuild.Shell

def toChars (bytes : Bytes) : List Char := bytes.map fun b => Char.ofNat b.toNat

def toBytes (s : List Char) : Bytes := s.map Char.toUInt8

/-- A word that a program is started with, as the shell has it. -/
def ofWord (w : OsString) : String := String.ofList (toChars w)

/-- The word that the shell starts a program with. -/
def toWord (s : String) : OsString := toBytes s.toList

def toPath (s : String) : Path := ⟨toWord s⟩

def ofPath (p : Path) : String := ofWord p.text

end SmaliBuild.Shell
