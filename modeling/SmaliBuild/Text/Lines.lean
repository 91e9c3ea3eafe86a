import SmaliBuild.Text.Span
/-!
# Lines of a text

A text is cut at its line ends, and each line knows its number, from 1 on, and the byte that it
begins at.
-/
namespace SmaliBuild.Text

structure Line where
  number : Nat
  start : Nat
  chars : List Char
deriving DecidableEq, Repr

namespace Line

/-- The first byte after the line, which is that of its line end. -/
def stop (l : Line) : Nat := l.start + byteLength l.chars

/-- The characters at the beginning that begin within so many bytes. -/
def within : (bytes : Nat) → List Char → List Char
  | _, [] => []
  | bytes, c :: rest => if bytes = 0 then [] else c :: within (bytes - c.utf8Size) rest

/-- The characters of the line that begin before a byte of the text. -/
def before (l : Line) (byte : Nat) : List Char := within (byte - l.start) l.chars

def withoutReturn (l : Line) : Line :=
  if l.chars.getLast? = some '\r' then { l with chars := l.chars.dropLast } else l

end Line

/-- The lines of a text that begins at a byte and a line number.  Behind the last line end there is
one more line, even if it is empty. -/
def linesFrom (number start : Nat) : List Char → List Line
  | [] => [⟨number, start, []⟩]
  | c :: rest =>
    if c = '\n' then ⟨number, start, []⟩ :: linesFrom (number + 1) (start + 1) rest
    else
      match linesFrom number (start + c.utf8Size) rest with
      | [] => []
      | l :: more => ⟨number, start, c :: l.chars⟩ :: more

def lines (s : List Char) : List Line := linesFrom 1 0 s

def lineAt (s : List Char) (byte : Nat) : Line :=
  ((lines s).takeWhile (·.start ≤ byte)).getLastD ⟨1, 0, []⟩

end SmaliBuild.Text
