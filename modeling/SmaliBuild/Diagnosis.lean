import SmaliBuild.Failure
import SmaliBuild.Text.Lines
import SmaliBuild.Text.Width
/-!
# Diagnoses

What a user reads when a run is given up: the message, its cause, the place in a file if there is
one, and advice.  `Diagnosis.render` is the text, made for reading aloud, so places are given in
words.
-/
namespace SmaliBuild

structure Snippet where
  name : String
  text : List Char
  span : Span
  label : String
deriving DecidableEq, Repr

namespace Snippet
open Text

/-- The cells of a line before a byte of the text. -/
def column (l : Line) (byte : Nat) : Nat := cells (l.before byte)

/-- The part of a line that the span covers, in words; none if it does not begin or end there. -/
def mark? (s : Snippet) (l : Line) : Option String :=
  let first := s!"{column l s.span.start + 1}"
  let last := s!"{column l s.span.stop}"
  let begins := l.start ≤ s.span.start ∧ s.span.start ≤ l.stop
  let ends := l.start ≤ s.span.stop ∧ s.span.stop ≤ l.stop
  if begins ∧ ends then
    if first = last then some s!"label at line {l.number}, column {first}"
    else some s!"label at line {l.number}, columns {first} to {last}"
  else if begins then some s!"label starting at line {l.number}, column {first}"
  else if ends then some s!"label ending at line {l.number}, column {last}"
  else none

/-- The lines that the span touches, and one more on each side.  A text that ends with a line end
has no line behind it. -/
def shown (s : Snippet) : List Line :=
  let all := lines s.text
  let all := if s.text.getLast? = some '\n' then all.dropLast else all
  let first := (lineAt s.text s.span.start).number
  let last := (lineAt s.text (s.span.stop - 1)).number
  all.filter fun l => first ≤ l.number + 1 ∧ l.number ≤ last + 1

/-- The lines with the label below those that its part begins or ends on. -/
def render (s : Snippet) : String :=
  let line (l : Line) : String :=
    let l := l.withoutReturn
    s!"snippet line {l.number}: {String.ofList l.chars}\n" ++
      match s.mark? l with
      | none => ""
      | some mark => s!"    {mark}: {s.label}\n"
  let from_ := (s.shown.head?.map (·.number)).getD 1
  s!"Begin snippet for {s.name} starting at line {from_}, column 1\n\n" ++
    String.join (s.shown.map line)

end Snippet

/-- Why a run was given up, as the user is told. -/
structure Diagnosis where
  message : String
  cause : Option String
  snippet : Option Snippet
  help : Option String
  code : Option String
deriving DecidableEq, Repr

namespace Diagnosis

/-- A line that stands only if there is something to say. -/
def line (label : String) : Option String → String
  | none => ""
  | some s => s!"{label}: {s}\n"

def render (d : Diagnosis) : String :=
  s!"{d.message}\n" ++ line "    Diagnostic severity" (some "error") ++
    line "    Caused by" d.cause ++ ((d.snippet.map Snippet.render).getD "") ++
    line "diagnostic help" d.help ++ line "diagnostic code" d.code ++ "\n"

end Diagnosis

def Failure.diagnosis (f : Failure) : Diagnosis where
  message := f.message
  cause := f.cause?.map IoError.message
  snippet := none
  help := f.help?
  code := f.code?

end SmaliBuild
